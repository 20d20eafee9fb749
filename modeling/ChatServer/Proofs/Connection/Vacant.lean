import ChatServer.Proofs.Connection.Attendance
import ChatServer.Proofs.Room.Incarnation

/-!
A server that handles no commands has no rooms. All of them come to their end in the piece of work
in which the handling of commands does, and rooms come into being by commands only.
-/

namespace ChatServer

open Registry

namespace Registry

theorem founds_releaseOrders {l : Option Listener} {o : Order} (ho : o ∈ releaseOrders l)
    (room : RoomId) : o.founds room = false := by
  cases l with
  | none => exact absurd ho List.not_mem_nil
  | some l => rcases List.mem_pair.1 ho with rfl | rfl <;> rfl

theorem founds_dropOrders {l : Option Listener} {o : Order} (ho : o ∈ dropOrders l)
    (room : RoomId) : o.founds room = false := by
  cases l with
  | none => exact absurd ho List.not_mem_nil
  | some l =>
      obtain rfl := List.mem_singleton.1 ho
      rfl

/-- Where there are no rooms none comes into being by orders that found none. -/
theorem count_obeyAll_eq_none {r : Registry} (hr : ∀ room, r.count room = none) {os : List Order}
    (hos : ∀ o ∈ os, ∀ room, o.founds room = false) (room : RoomId) :
    (r.obeyAll os).count room = none := by
  have hnot : ¬((r.obeyAll os).count room).isSome = true := by
    rw [isSome_count_obeyAll]
    rintro (⟨before, o, after, rfl, hfounds, -⟩ | ⟨hsome, -⟩)
    · simp [hos o (by simp) room] at hfounds
    · simp [hr room] at hsome
  simpa using hnot

/-- After the end of all rooms there are none. -/
theorem count_closeAll (r : Registry) (os : List Order) (room : RoomId) :
    (r.obeyAll (os ++ [.closeAll])).count room = none := by
  rw [obeyAll_append, obeyAll_cons, obeyAll_nil, obey, closeAll, count, Table.get?_empty]
  rfl

end Registry

/-- A pump founds no room. -/
theorem Pump.founds_ordersFor {p : Pump} {r : Registry} {fuel : Nat} {o : Order}
    (ho : o ∈ p.ordersFor r fuel) (room : RoomId) : o.founds room = false := by
  induction fuel generalizing p r with
  | zero => exact absurd ho List.not_mem_nil
  | succ fuel ih =>
      rw [ordersFor] at ho
      cases hturn : p.turn r true with
      | none =>
          rw [hturn] at ho
          exact absurd ho List.not_mem_nil
      | some moved =>
          rw [hturn] at ho
          rcases List.mem_append.1 ho with hfirst | hrest
          · unfold turnOrders at hfirst
            split at hfirst
            · unfold endOrders at hfirst
              split at hfirst
              · exact founds_dropOrders hfirst room
              · exact founds_releaseOrders hfirst room
            · split at hfirst
              · obtain rfl := List.mem_singleton.1 hfirst
                rfl
              · exact absurd hfirst List.not_mem_nil
          · exact ih hrest

/-- What a connection is answered tells which rooms it founds: one that it has created or joined. -/
theorem Connection.founds_orders {c : Connection} {d : Deed} {o : Order} (ho : o ∈ c.orders d)
    {room : RoomId} (hfounds : o.founds room = true) :
    ∃ name request x, d = .answered name request (.roomCreated x) ∨
      d = .answered name request (.joined x) := by
  unfold orders at ho
  split at ho
  · simp [founds_releaseOrders ho room] at hfounds
  · exact ⟨_, _, _, .inr rfl⟩
  · simp [founds_releaseOrders ho room] at hfounds
  · exact ⟨_, _, _, .inl rfl⟩
  · obtain rfl := List.mem_singleton.1 ho
    simp [Order.founds] at hfounds
  · obtain ⟨user, -, rfl⟩ := List.mem_map.1 ho
    simp [Order.founds] at hfounds
  · exact absurd ho List.not_mem_nil

namespace Hub

variable {h : Hub} {p : Piece} {o : Order}

/-- Nobody is told that a room has been created or joined where commands are not handled. -/
theorem serve_unmanaged (hm : h.managed = false) {c c' : Connection} {request : Request} {f : Frame}
    {g : Hub} (hserve : h.serve c request = .reply f c' g) (room : String) :
    f ≠ .roomCreated room ∧ f ≠ .joined room := by
  cases request with
  | createRoom x | deleteRoom x => simp [serve, command, hm] at hserve
  | join x => simp [serve, endStream_eq, openListener, hm] at hserve
  | identify user =>
      obtain ⟨rfl, -, -⟩ := Served.reply.inj hserve
      simp
  | leave =>
      simp only [serve] at hserve
      split at hserve <;> obtain ⟨rfl, -, -⟩ := Served.reply.inj hserve <;> simp [Frame.ofError]
  | chat text =>
      simp only [serve, command, hm] at hserve
      split at hserve
      · obtain ⟨rfl, -, -⟩ := Served.reply.inj hserve
        simp [Frame.ofError]
      · obtain ⟨rfl, -, -⟩ := Served.reply.inj hserve
        simp [Frame.ofError]
      · simp at hserve
  | history x | fetchDirect sender receiver | deleteDirect sender receiver =>
      obtain ⟨rfl, -, -⟩ := Served.reply.inj hserve
      unfold logReply
      split <;> simp [Frame.ofError]
  | direct receiver text =>
      simp only [serve] at hserve
      split at hserve
      · obtain ⟨rfl, -, -⟩ := Served.reply.inj hserve
        simp [Frame.ofError]
      · split at hserve
        · obtain ⟨rfl, -, -⟩ := Served.reply.inj hserve
          simp
        · obtain ⟨rfl, -, -⟩ := Served.reply.inj hserve
          simp [Frame.ofError]
        · simp at hserve

/-- Where commands are not handled no piece of work founds a room. -/
theorem founds_given (hm : h.managed = false) (hp : h.admits p = true) (ho : o ∈ h.given p)
    (room : RoomId) : o.founds room = false := by
  cases p with
  | react e =>
      have hrefuses : h.refuses e = false := by simpa [admits] using hp
      cases e with
      | create x | listen name x =>
          have hmanaged := managed_of_not_refuses hrefuses rfl
          simp [hm] at hmanaged
      | listenAbandoned x => simp [given, asked, hm] at ho
      | delete x | submit sender x text =>
          obtain rfl := List.mem_singleton.1 ho
          rfl
      | close name x =>
          obtain ⟨l, -, rfl⟩ := List.mem_map.1 ho
          rfl
      | receive name | tryReceive name =>
          obtain ⟨l, -, rfl⟩ := List.mem_map.1 ho
          rfl
      | closeHeld name => exact founds_releaseOrders ho room
      | drop name => exact founds_dropOrders ho room
      | pump name capacity heading =>
          simp only [given, asked] at ho
          split at ho
          · exact founds_releaseOrders ho room
          · exact absurd ho List.not_mem_nil
      | _ => exact absurd ho List.not_mem_nil
  | serve name =>
      obtain ⟨c, -, ho⟩ := List.mem_flatMap.1 ho
      obtain ⟨d, hd, ho⟩ := List.mem_flatMap.1 ho
      refine Bool.eq_false_iff.2 fun hfounds => ?_
      obtain ⟨n, request, x, hdeed⟩ := Connection.founds_orders ho hfounds
      cases hserve : h.serveNext name with
      | none => simp [deeds, hserve] at hd
      | some after =>
          obtain ⟨c', -, -, hserving⟩ := serving_of_serveNext hserve
          cases hserving with
          | gone inbox eq deeds | unreadable inbox eq deeds | ended inbox served eq deeds =>
              rw [deeds] at hd
              simp_all
          | answered inbox served eq deeds =>
              rw [deeds, List.mem_singleton] at hd
              obtain ⟨hcreated, hjoined⟩ := serve_unmanaged (by exact hm) served x
              rcases hdeed with hdeed | hdeed <;> simp_all
  | pump name =>
      obtain ⟨q, -, ho⟩ := List.mem_flatMap.1 ho
      exact Pump.founds_ordersFor ho room
  | forward name =>
      simp only [given, passed] at ho
      split at ho
      · exact absurd ho List.not_mem_nil
      · split at ho
        · exact absurd ho List.not_mem_nil
        · rcases List.mem_append.1 ho with ho | ho
          · rw [List.eq_of_mem_replicate ho]
            rfl
          · split at ho
            · exact absurd ho List.not_mem_nil
            · rw [List.mem_singleton.1 ho]
              rfl
  | _ => exact absurd ho List.not_mem_nil

/-- There are no rooms where commands are not handled. -/
def Vacant (h : Hub) : Prop := h.managed = false → ∀ room, h.registry.count room = none

theorem vacant_new (tuning : Tuning) (outages : Outages) (gated : Bool) (wall : Instant) :
    (new tuning outages gated wall).Vacant := fun hm => by simp [new] at hm

theorem Vacant.piece (hv : h.Vacant) (hp : h.admits p = true) : (h.piece p).Vacant := by
  intro hm room
  rw [registry_piece]
  cases hbefore : h.managed with
  | true =>
      have horders : h.orders p = h.given p ++ [.closeAll] := by
        simp [orders, ending, hbefore, hm]
      rw [horders]
      exact count_closeAll _ _ room
  | false =>
      rw [orders_of_managed (hm.trans hbefore.symm)]
      exact count_obeyAll_eq_none (hv hbefore) (fun o ho => founds_given hbefore hp ho) room

theorem Vacant.pieces (hv : h.Vacant) {ps : List Piece} (hps : h.Runs ps) :
    (h.pieces ps).Vacant := hps.invariant (fun _ _ hp hg => hg.piece hp) hv

end Hub

end ChatServer
