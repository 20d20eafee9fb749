import ChatServer.Proofs.Connection.Work
import ChatServer.Proofs.Hub.Independence

/-!
A server with another writer before its log. Whether the writer runs, has finished or is dead makes
no difference to rooms, listeners, pumps and connections: nothing that they do in a piece of work,
and nothing that is answered, depends on it.
-/

namespace ChatServer.Hub

variable {h g : Hub} {writer : LogWriter}

def withWriter (h : Hub) (writer : LogWriter) : Hub :=
  { h with journal := { h.journal with writer } }

/-- Two servers that differ in their writers at most. -/
def Scribes (h g : Hub) : Prop := ∃ writer, g = h.withWriter writer

theorem Scribes.sameFront (hg : Scribes h g) : SameFront h g := by
  obtain ⟨writer, rfl⟩ := hg
  exact ⟨h.tuning, { h.journal with writer }, h.wall, rfl⟩

theorem scribes_withWriter (h : Hub) (writer : LogWriter) : Scribes h (h.withWriter writer) :=
  ⟨writer, rfl⟩

/-! ### Requests -/

theorem acquire_withWriter (h : Hub) (writer : LogWriter) (who : Task) :
    (h.withWriter writer).acquire who = ((h.acquire who).1, (h.acquire who).2.withWriter writer) :=
  rfl

theorem history_withWriter (h : Hub) (writer : LogWriter) (room : RoomId) :
    (h.withWriter writer).history room =
      ((h.history room).1, (h.history room).2.withWriter writer) := by
  have hcall : ∀ (h : Hub) (c : LogCall),
      (h.withWriter writer).call c = ((h.call c).1, (h.call c).2.withWriter writer) :=
    fun _ _ => rfl
  simp only [history, hcall]
  rcases h.call (.contains (roomKey room)) with ⟨a | reason | _, after⟩
  · cases a with
    | found b =>
        cases b with
        | false => rfl
        | true =>
            simp only [hcall]
            rcases after.call (.range (roomKey room) 0 (-1)) with ⟨a | reason | _, later⟩
            · cases a <;> rfl
            · rfl
            · rfl
    | _ => rfl
  · rfl
  · rfl

theorem getDirect_withWriter (h : Hub) (writer : LogWriter) (sender receiver : UserId) :
    (h.withWriter writer).getDirect sender receiver =
      ((h.getDirect sender receiver).1, (h.getDirect sender receiver).2.withWriter writer) := by
  have hcall : ∀ c : LogCall,
      (h.withWriter writer).call c = ((h.call c).1, (h.call c).2.withWriter writer) := fun _ => rfl
  simp only [getDirect, hcall]
  rcases h.call (.range (directKey sender receiver) 0 (-1)) with ⟨a | reason | _, after⟩
  · cases a <;> rfl
  · rfl
  · rfl

theorem deleteDirect_withWriter (h : Hub) (writer : LogWriter) (sender receiver : UserId) :
    (h.withWriter writer).deleteDirect sender receiver =
      ((h.deleteDirect sender receiver).1,
        (h.deleteDirect sender receiver).2.withWriter writer) := by
  have hcall : ∀ c : LogCall,
      (h.withWriter writer).call c = ((h.call c).1, (h.call c).2.withWriter writer) := fun _ => rfl
  simp only [deleteDirect, hcall]
  rcases h.call (.delete (directKey sender receiver)) with ⟨a | reason | _, after⟩ <;> rfl

theorem direct_withWriter (h : Hub) (writer : LogWriter) (sender receiver : UserId)
    (text : String) : (h.withWriter writer).direct sender receiver text =
      ((h.direct sender receiver text).1, (h.direct sender receiver text).2.withWriter writer) :=
  rfl

theorem scribes_delete (h : Hub) (writer : LogWriter) (room : RoomId) :
    Scribes (h.delete room) ((h.withWriter writer).delete room) := by
  unfold delete
  dsimp only [withWriter]
  split <;> exact ⟨_, rfl⟩

theorem openListener_withWriter (h : Hub) (writer : LogWriter) (room : RoomId) :
    ((h.withWriter writer).openListener room).1 = (h.openListener room).1 ∧
      Scribes (h.openListener room).2 ((h.withWriter writer).openListener room).2 := by
  have hm : (h.withWriter writer).managed = h.managed := rfl
  have hcan : (h.withWriter writer).registry.canOpen = h.registry.canOpen := rfl
  unfold openListener
  rw [hm, hcan]
  split
  · exact ⟨rfl, writer, rfl⟩
  · split
    · exact ⟨rfl, writer, rfl⟩
    · exact ⟨rfl, _, rfl⟩

/-- Requests served alike by two servers that differ in their writers at most. -/
inductive ServedAlike : Served → Served → Prop
  | reply {f : Frame} {c : Connection} {g g' : Hub} (same : Scribes g g') :
      ServedAlike (.reply f c g) (.reply f c g')
  | ended {c : Connection} {g g' : Hub} (same : Scribes g g') :
    ServedAlike (.ended c g) (.ended c g')

theorem servedAlike_command (h : Hub) (writer : LogWriter) (c : Connection) (f : Frame) {g g' : Hub}
    (hg : Scribes g g') : ServedAlike (h.command c f g) ((h.withWriter writer).command c f g') := by
  have hm : (h.withWriter writer).managed = h.managed := rfl
  unfold command
  rw [hm]
  split
  · exact .reply hg
  · exact .ended ⟨writer, rfl⟩

theorem servedAlike_serve (h : Hub) (writer : LogWriter) (c : Connection) (request : Request) :
    ServedAlike (h.serve c request) ((h.withWriter writer).serve c request) := by
  cases request with
  | identify user => exact .reply ⟨writer, rfl⟩
  | createRoom room => exact servedAlike_command h writer c _ ⟨writer, rfl⟩
  | join room =>
      obtain ⟨hsame, hscribes⟩ := openListener_withWriter
        { h with registry := h.registry.release c.stream } writer ⟨room⟩
      simp only [serve, endStream_eq]
      rcases hl : ({ h with registry := h.registry.release c.stream } : Hub).openListener ⟨room⟩
        with ⟨l, after⟩
      rcases hl' : (({ h with registry := h.registry.release c.stream } : Hub).withWriter
        writer).openListener ⟨room⟩ with ⟨l', after'⟩
      rw [hl, hl'] at hsame hscribes
      obtain rfl : l' = l := hsame
      rw [show ({ h.withWriter writer with
        registry := (h.withWriter writer).registry.release c.stream } : Hub).openListener ⟨room⟩ =
          (l', after') from hl']
      cases l' with
      | none => exact .ended hscribes
      | some l => exact .reply hscribes
  | leave =>
      simp only [serve, endStream_eq]
      split <;> exact .reply ⟨writer, rfl⟩
  | chat text =>
      simp only [serve]
      split
      · exact .reply ⟨writer, rfl⟩
      · exact .reply ⟨writer, rfl⟩
      · exact servedAlike_command h writer c _ ⟨_, rfl⟩
  | deleteRoom room => exact servedAlike_command h writer c _ (scribes_delete h writer ⟨room⟩)
  | history room =>
      simp only [serve, history_withWriter]
      exact .reply ⟨writer, rfl⟩
  | direct receiver text =>
      simp only [serve, direct_withWriter]
      cases c.session.user with
      | none => exact .reply ⟨writer, rfl⟩
      | some user =>
          dsimp only
          rcases h.direct user ⟨receiver⟩ text with ⟨a | reason | _, after⟩
          · exact .reply ⟨writer, rfl⟩
          · exact .reply ⟨writer, rfl⟩
          · exact .ended ⟨writer, rfl⟩
  | fetchDirect sender receiver =>
      simp only [serve, getDirect_withWriter]
      exact .reply ⟨writer, rfl⟩
  | deleteDirect sender receiver =>
      simp only [serve, deleteDirect_withWriter]
      exact .reply ⟨writer, rfl⟩

/-! ### Pieces of work -/

theorem scribes_putConnection {g' : Hub} (hg : Scribes g g') (name : Label) (c : Connection) :
    Scribes (g.putConnection name c) (g'.putConnection name c) := by
  obtain ⟨writer, rfl⟩ := hg
  exact ⟨writer, rfl⟩

theorem scribes_endConnection {g' : Hub} (hg : Scribes g g') (name : Label) (c : Connection) :
    Scribes (g.endConnection name c) (g'.endConnection name c) := by
  obtain ⟨writer, rfl⟩ := hg
  rw [endConnection_eq, endConnection_eq]
  exact ⟨writer, rfl⟩

/-- What has arrived from a client is served alike, if it is served at all. -/
theorem scribes_serve (h : Hub) (writer : LogWriter) (name : Label) :
    Scribes (h.piece (.serve name)) ((h.withWriter writer).piece (.serve name)) := by
  have hsame := scribes_withWriter h writer
  simp only [piece, serveNext]
  have hconnections : (h.withWriter writer).connections = h.connections := rfl
  rw [hconnections]
  cases h.connections.get? name with
  | none => exact hsame
  | some c =>
      dsimp only
      split
      · exact hsame
      · rcases c.inbox with _ | ⟨s | _, rest⟩
        · exact hsame
        · dsimp only
          have hleave : (if pushes c (Request.parse s) then
              (h.withWriter writer).acquire (.connection name) else (true, h.withWriter writer)) =
              ((if pushes c (Request.parse s) then h.acquire (.connection name) else (true, h)).1,
                (if pushes c (Request.parse s) then
                  h.acquire (.connection name) else (true, h)).2.withWriter writer) := by
            split <;> rfl
          rw [hleave]
          rcases (if pushes c (Request.parse s) then h.acquire (.connection name) else (true, h))
            with ⟨granted, after⟩
          cases granted with
          | false => exact hsame
          | true =>
              dsimp only
              rw [if_neg (by simp), if_neg (by simp)]
              cases Request.parse s with
              | error r => exact scribes_putConnection (scribes_withWriter after writer) name _
              | ok request =>
                  have halike := servedAlike_serve after writer { c with inbox := rest } request
                  dsimp only
                  generalize after.serve { c with inbox := rest } request = served at halike ⊢
                  generalize (after.withWriter writer).serve { c with inbox := rest } request =
                    served' at halike ⊢
                  cases halike with
                  | reply same => exact scribes_putConnection same name _
                  | ended same => exact scribes_endConnection same name _
        · exact scribes_endConnection hsame name c

theorem scribes_wait (h : Hub) (writer : LogWriter) (name : Label) :
    Scribes (h.waitInLine name) ((h.withWriter writer).waitInLine name) := by
  have hsame := scribes_withWriter h writer
  unfold waitInLine
  have hconnections : (h.withWriter writer).connections = h.connections := rfl
  rw [hconnections]
  split
  · exact hsame
  · split
    · split
      · exact ⟨writer, rfl⟩
      · exact hsame
    · exact hsame

theorem scribes_forward (h : Hub) (writer : LogWriter) (name : Label) :
    Scribes (h.forward name) ((h.withWriter writer).forward name) := by
  have hsame := scribes_withWriter h writer
  have hconnections : (h.withWriter writer).connections = h.connections := rfl
  have hregistry : (h.withWriter writer).registry = h.registry := rfl
  unfold forward
  rw [hconnections, hregistry]
  split
  · exact hsame
  · split
    · exact hsame
    · split
      · exact hsame
      · dsimp only
        split <;> exact ⟨writer, rfl⟩

theorem scribes_forget (h : Hub) (writer : LogWriter) (name : Label) :
    Scribes (h.forget name).2 ((h.withWriter writer).forget name).2 := by
  have hsame := scribes_withWriter h writer
  have hconnections : (h.withWriter writer).connections = h.connections := rfl
  unfold forget
  rw [hconnections]
  split
  · exact hsame
  · split
    · exact hsame
    · exact ⟨writer, rfl⟩

/-- Whatever is asked, what is answered at once does not depend on the writer, nor does what becomes
of the front. -/
theorem react_withWriter (h : Hub) (writer : LogWriter) (e : Event) :
    ((h.withWriter writer).react e).1 = (h.react e).1 ∧
      SameFront (h.react e).2 ((h.withWriter writer).react e).2 := by
  have hsame := (scribes_withWriter h writer).sameFront
  cases hfront : e.isFront with
  | true => exact sameFront_react hfront hsame
  | false =>
      cases e with
      | history room =>
          simp only [react, history_withWriter]
          exact ⟨trivial, (scribes_withWriter _ writer).sameFront⟩
      | getDirect sender receiver =>
          simp only [react, getDirect_withWriter]
          exact ⟨trivial, (scribes_withWriter _ writer).sameFront⟩
      | deleteDirect sender receiver =>
          simp only [react, deleteDirect_withWriter]
          exact ⟨trivial, (scribes_withWriter _ writer).sameFront⟩
      | direct sender receiver text =>
          simp only [react, acquire_withWriter]
          rcases h.acquire .caller with ⟨granted, after⟩
          cases granted with
          | false => exact ⟨rfl, hsame⟩
          | true =>
              dsimp only
              rw [direct_withWriter]
              rcases after.direct sender receiver text with ⟨a | reason | _, later⟩ <;>
                exact ⟨rfl, (scribes_withWriter _ writer).sameFront⟩
      | connect name id =>
          have hserves : (h.withWriter writer).serves name = h.serves name := rfl
          simp only [react, hserves]
          split
          · exact ⟨rfl, hsame⟩
          · exact ⟨rfl, (scribes_putConnection (scribes_withWriter h writer) name _).sameFront⟩
      | text name s | disconnect name =>
          have hconnections : (h.withWriter writer).connections = h.connections := rfl
          simp only [react, hconnections]
          split
          · exact ⟨rfl, hsame⟩
          · exact ⟨rfl, (scribes_withWriter _ writer).sameFront⟩
      | flush | keyExists key | log c | logSize | advance d | permits n | outages o =>
          exact ⟨rfl, h.tuning, _, h.wall, rfl⟩
      | ignored name => exact ⟨rfl, hsame⟩
      | _ => simp [Event.isFront] at hfront

/-- In no piece of work does the front depend on the writer. -/
theorem sameFront_piece (h : Hub) (writer : LogWriter) (p : Piece) :
    SameFront (h.piece p) ((h.withWriter writer).piece p) := by
  have hsame := (scribes_withWriter h writer).sameFront
  cases p with
  | date wall => exact ⟨h.tuning, { h.journal with writer }, wall, rfl⟩
  | react e => exact (react_withWriter h writer e).2
  | serve name => exact (scribes_serve h writer name).sameFront
  | wait name => exact (scribes_wait h writer name).sameFront
  | pump name => exact sameFront_runPump hsame name
  | forward name => exact (scribes_forward h writer name).sameFront
  | write => exact ⟨h.tuning, _, h.wall, rfl⟩
  | retire => exact sameFront_retire hsame
  | forget name => exact (scribes_forget h writer name).sameFront
  | collect => exact ⟨h.tuning, { h.journal with writer }, h.wall, rfl⟩

end ChatServer.Hub
