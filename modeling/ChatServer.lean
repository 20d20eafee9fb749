import ChatServer.Main
import ChatServer.Proofs.Connection.Chat
import ChatServer.Proofs.Connection.Protocol
import ChatServer.Proofs.Connection.Release
import ChatServer.Proofs.Connection.Rooms
import ChatServer.Proofs.Connection.Shutdown
import ChatServer.Proofs.Connection.StreamEnd
import ChatServer.Proofs.Grammar.Frames
import ChatServer.Proofs.Grammar.Requests
import ChatServer.Proofs.History.Correspondence
import ChatServer.Proofs.History.Purge
import ChatServer.Proofs.History.Retry
import ChatServer.Proofs.Hub.Independence
import ChatServer.Proofs.Log.Lapse
import ChatServer.Proofs.Log.Positions
import ChatServer.Proofs.Redis.Expiry
import ChatServer.Proofs.Room.Conveyance
import ChatServer.Proofs.Room.Publish
import ChatServer.Proofs.Room.Stream
import ChatServer.Proofs.RoundTrip.Normal
