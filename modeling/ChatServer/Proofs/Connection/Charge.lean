import ChatServer.Proofs.Connection.Inbox

/-!
Who gives commands and whether they are carried out. Where listeners can have channels nothing but
the departure of everybody ends the handling of commands, so it goes on for as long as the user of
the server holds a handle.
-/

namespace ChatServer.Hub

/-- A handle that has been given up stays given up, and commands are handled as before. -/
structure Charge (h h' : Hub) : Prop where
  handle : h'.handle = true → h.handle = true
  managed : h.registry.canOpen = true → h'.managed = h.managed

variable {h h' g : Hub} {vs : Visitors} {subs : List Subscription}

theorem Charge.refl (h : Hub) : Charge h h := ⟨id, fun _ => rfl⟩

/-- Only these three things matter. -/
theorem Charge.of_eq (hc : Charge h g) (hhandle : h'.handle = g.handle)
    (hmanaged : h'.managed = g.managed) : Charge h h' :=
  ⟨fun hh => hc.handle (hhandle ▸ hh), fun hcan => hmanaged.trans (hc.managed hcan)⟩

theorem charge_openListener (h : Hub) (room : RoomId) : Charge h (h.openListener room).2 := by
  unfold openListener
  cases hm : h.managed with
  | false => exact Charge.refl h
  | true =>
      cases hcan : h.registry.canOpen with
      | true => exact ⟨id, fun _ => hm.symm⟩
      | false => exact ⟨id, fun hopen => by simp [hcan] at hopen⟩

theorem charge_delete (h : Hub) (room : RoomId) : Charge h (h.delete room) := by
  unfold delete
  dsimp only
  split <;> exact ⟨id, fun _ => rfl⟩

theorem charge_withStore (h : Hub) (store : Store Task) : Charge h (h.withStore store) :=
  ⟨id, fun _ => rfl⟩

theorem charge_endConnection (h : Hub) (name : Label) (c : Connection) :
    Charge h (h.endConnection name c) := by
  rw [endConnection_eq]
  exact ⟨id, fun _ => rfl⟩

theorem charge_history (h : Hub) (room : RoomId) : Charge h (h.history room).2 := by
  obtain ⟨store, heq, -⟩ := history_look h room
  rw [heq]
  exact charge_withStore h store

theorem charge_react (h : Hub) (e : Event) : Charge h (h.react e).2 := by
  cases hlog : e.isLogSide with
  | true =>
      obtain ⟨journal, heq⟩ := react_logSide (h := h) hlog
      rw [heq]
      exact ⟨id, fun _ => rfl⟩
  | false =>
      cases e with
      | listen name room =>
          have hcharge := charge_openListener h room
          simp only [react]
          rcases hopen : h.openListener room with ⟨_ | l, g⟩ <;> rw [hopen] at hcharge
          · exact hcharge
          · obtain ⟨registry, held, hdrop, -⟩ := dropHeld_eq g name
            dsimp only
            rw [hdrop]
            exact hcharge.of_eq rfl rfl
      | listenAbandoned room =>
          simp only [react, openAbandoned]
          split
          · cases hcan : h.registry.canOpen with
            | true => exact ⟨id, fun _ => rfl⟩
            | false => exact ⟨id, fun hopen => by simp [hcan] at hopen⟩
          · exact Charge.refl h
      | delete room => exact charge_delete h room
      | drop name =>
          obtain ⟨registry, held, hdrop, -⟩ := dropHeld_eq h name
          simp only [react, hdrop]
          exact ⟨id, fun _ => rfl⟩
      | pump name capacity heading =>
          obtain ⟨registry, pumps, hdrop, -⟩ := dropPump_eq h name
          simp only [react, hdrop]
          split
          · exact Charge.refl h
          · split <;> exact ⟨id, fun _ => rfl⟩
      | cancel name =>
          simp only [react]
          split
          · exact Charge.refl h
          · split <;> exact ⟨id, fun _ => rfl⟩
      | shutdown => exact ⟨fun hh => by simp [react] at hh, fun _ => rfl⟩
      | close name room | closeHeld name | receive name | tryReceive name | sinkReceive name
      | connect name connection | text name s | disconnect name =>
          simp only [react]
          split <;> exact ⟨id, fun _ => rfl⟩
      | create room | submit sender room text | count room | roomExists room | sinkDrop name
      | pumpEnd name | ignored name => exact ⟨id, fun _ => rfl⟩
      | _ => simp [Event.isLogSide] at hlog

/-- The server after a request, answered or not. -/
def Served.hub : Served → Hub
  | .reply _ _ h | .ended _ h => h

/-- After a request to join the old listener is given up and a new one has been asked for. -/
theorem hub_serve_join (h : Hub) (c : Connection) (room : String) :
    (h.serve c (.join room)).hub =
      (({ h with registry := h.registry.release c.stream } : Hub).openListener ⟨room⟩).2 := by
  rw [serve, endStream_eq]
  dsimp only
  rcases ({ h with registry := h.registry.release c.stream } : Hub).openListener ⟨room⟩
    with ⟨_ | l, g⟩ <;> rfl

/-- Whatever an identified client is told of a direct message, it has been handed to the store. -/
theorem hub_serve_direct_of_user {user : UserId} (huser : c.session.user = some user)
    (receiver text : String) :
    (h.serve c (.direct receiver text)).hub = (h.direct user ⟨receiver⟩ text).2 := by
  simp only [serve, huser]
  rcases h.direct user ⟨receiver⟩ text with ⟨_ | reason | _, g⟩ <;> rfl

theorem charge_command (c : Connection) (f : Frame) {after : Hub} (hafter : Charge h after) :
    Charge h (h.command c f after).hub := by
  unfold command
  split
  · exact hafter
  · exact Charge.refl h

theorem charge_serve (h : Hub) (c : Connection) (request : Request) :
    Charge h (h.serve c request).hub := by
  cases request with
  | identify user => exact Charge.refl h
  | createRoom room => exact charge_command c _ ⟨id, fun _ => rfl⟩
  | join room =>
      have hopen := charge_openListener { h with registry := h.registry.release c.stream } ⟨room⟩
      rw [hub_serve_join]
      exact ⟨hopen.handle, fun hcan =>
        hopen.managed ((canOpen_release h.registry c.stream).trans hcan)⟩
  | leave =>
      simp only [serve, endStream_eq]
      split <;> exact ⟨id, fun _ => rfl⟩
  | chat text =>
      simp only [serve]
      split
      · exact Charge.refl h
      · exact Charge.refl h
      · exact charge_command c _ ⟨id, fun _ => rfl⟩
  | deleteRoom room => exact charge_command c _ (charge_delete h ⟨room⟩)
  | history room => exact charge_history h ⟨room⟩
  | direct receiver text =>
      cases huser : c.session.user with
      | none =>
          simp only [serve, huser]
          exact Charge.refl h
      | some user =>
          rw [hub_serve_direct_of_user huser]
          exact charge_withStore h _
  | fetchDirect sender receiver =>
      obtain ⟨store, heq, -⟩ :=
        react_look (h := h) (e := .getDirect ⟨sender⟩ ⟨receiver⟩) rfl
      have hcharge := charge_withStore h store
      rw [← heq] at hcharge
      exact hcharge
  | deleteDirect sender receiver =>
      have hcharge := charge_withStore h
        (h.journal.store.apply h.journal.now (.purge (directKey ⟨sender⟩ ⟨receiver⟩)))
      rw [← react_deleteDirect] at hcharge
      exact hcharge

theorem charge_serveNext {name : Label} (hserve : h.serveNext name = some h') : Charge h h' := by
  obtain ⟨c, -, -, hserving⟩ := serving_of_serveNext hserve
  cases hserving with
  | gone inbox eq deeds =>
      rw [eq]
      exact charge_endConnection h name c
  | unreadable inbox eq deeds =>
      rw [eq]
      exact ⟨id, fun _ => rfl⟩
  | @answered _ rest request f c' g inbox served eq deeds =>
      have hserved := charge_serve { h with journal := h.leaveFor name c request }
        { c with inbox := rest } request
      rw [served] at hserved
      rw [eq]
      exact ⟨hserved.handle, hserved.managed⟩
  | @ended _ rest request c' g inbox served eq deeds =>
      have hserved := charge_serve { h with journal := h.leaveFor name c request }
        { c with inbox := rest } request
      rw [served] at hserved
      rw [eq, endConnection_eq]
      exact ⟨hserved.handle, hserved.managed⟩

theorem charge_forward (h : Hub) (name : Label) : Charge h (h.forward name) := by
  rcases forward_cases h name with heq | ⟨c, registry, outbox, stream, -, heq⟩ <;> rw [heq]
  · exact Charge.refl h
  · exact ⟨id, fun _ => rfl⟩

/-- Only by retiring does a server that can open listeners cease to handle commands. -/
theorem charge_piece (h : Hub) {p : Piece} (hp : p ≠ .retire) : Charge h (h.piece p) := by
  cases p with
  | react e => exact charge_react h e
  | serve name =>
      rw [piece]
      cases hserve : h.serveNext name with
      | none => exact Charge.refl h
      | some after => exact charge_serveNext hserve
  | wait name =>
      obtain ⟨gate, heq⟩ := waitInLine_eq h name
      rw [piece, heq]
      exact charge_withStore h _
  | pump name =>
      obtain ⟨registry, pumps, heq⟩ := runPump_eq h name
      rw [piece, heq]
      exact ⟨id, fun _ => rfl⟩
  | forward name => exact charge_forward h name
  | retire => exact absurd rfl hp
  | forget name =>
      rcases forget_cases h name with heq | ⟨c, -, -, heq⟩ <;> rw [piece, heq] <;>
        exact ⟨id, fun _ => rfl⟩
  | date wall | write | collect => exact ⟨id, fun _ => rfl⟩

/-- What it takes to retire. -/
theorem retire_cases (h : Hub) : h.retire = h ∨
    h.handle = false ∧ h.retire.handle = false ∧ h.retire.managed = false := by
  unfold retire
  split
  case isTrue hgone =>
    refine .inr ⟨?_, ?_, rfl⟩
    · rw [Bool.and_eq_true, attended, Bool.not_eq_true', Bool.or_eq_false_iff,
        Bool.or_eq_false_iff] at hgone
      exact hgone.2.1.1
    · rw [Bool.and_eq_true, attended, Bool.not_eq_true', Bool.or_eq_false_iff,
        Bool.or_eq_false_iff] at hgone
      exact hgone.2.1.1
  case isFalse => exact .inl rfl

/-! ### The size of channels -/

theorem capacity_change {ds : List Deed} {opened : List Subscription}
    (hc : Change h vs ds opened h') : h'.registry.capacity = h.registry.capacity := by
  have hdelete : ∀ (r : Registry) (room : RoomId), (r.delete room).2.capacity = r.capacity := by
    intro r room
    unfold Registry.delete
    split <;> rfl
  have hpublish : ∀ (r : Registry) (room : RoomId) (line : Payload),
      (r.publish room line).capacity = r.capacity := by
    intro r room line
    unfold Registry.publish
    split <;> rfl
  cases hc with
  | still registry rest same silent => exact registry.capacity
  | said registry rest same line kept => rw [registry, hpublish]
  | deleted registry rest same line gone => rw [registry, hdelete]
  | listened registry presence shown handles => exact registry.capacity
  | joined can old alive registry presence shown handles =>
      rw [registry]
      exact capacity_release _ _
  | quit quits registry => rw [registry, capacity_release]
  | barred quits cannot registry => rw [registry]; rfl
  | identified old alive registry presence shown handles => rw [registry]
  | forwarded stream channel sending registry presence shown handles => rw [registry]
  | ended old stream channel ended registry presence shown handles => exact registry.capacity
  | dismissed nobody registry rest => rw [registry]; rfl

theorem canOpen_piece (hk : h.Kept vs subs) (p : Piece) :
    (h.piece p).registry.canOpen = h.registry.canOpen := by
  have hcapacity : (h.piece p).registry.capacity = h.registry.capacity := by
    cases hp : p.clears with
    | false => exact capacity_change (change_piece hk hp)
    | true =>
        cases p with
        | forget name =>
            rcases forget_cases h name with heq | ⟨c, -, -, heq⟩ <;> rw [piece, heq]
        | collect => rfl
        | _ => simp [Piece.clears] at hp
  rw [Registry.canOpen, hcapacity]
  rfl

end ChatServer.Hub
