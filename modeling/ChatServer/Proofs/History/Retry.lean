import ChatServer.Proofs.History.Direct
import ChatServer.Proofs.History.LogSide

/-!
Direct messages that are refused because the store is out of order. A message is appended and then
the deadline of its key is set, and either may fail. Nothing is taken back: what was appended before
the failure stays, so whoever tries again stores one more copy with each attempt that fails only at
the deadline.
-/

namespace ChatServer

namespace Store

variable {α : Type} {s : Store α} {now : Time} {reason : String}

theorem call_unavailable {c : LogCall} (h : (s.call now c).1 = .unavailable reason) :
    s.outages.reason c = some reason := by
  unfold call at h
  cases hr : s.outages.reason c with
  | some r =>
      simp only [hr] at h
      rw [CallResult.unavailable.inj h]
  | none =>
      simp only [hr] at h
      split at h <;> simp at h

/-- A write fails where its value cannot be appended, or else its deadline cannot be set. -/
theorem write_unavailable {key value : String} {ttl : Duration}
    (h : (s.write now key value ttl).1 = .unavailable reason) :
    s.outages.push = some reason ∨ s.outages.push = none ∧ s.outages.expire = some reason := by
  rw [write_eq] at h
  split at h
  case isTrue hpushed =>
    refine .inr ⟨?_, ?_⟩
    · cases hpush : s.outages.push with
      | none => rfl
      | some r => simp [call, Outages.reason, hpush] at hpushed
    · have hexpire := call_unavailable h
      rwa [outages_call] at hexpire
  case isFalse => exact .inl (call_unavailable h)

end Store

namespace Hub

variable {h : Hub}

/-- The direct message that is refused in a piece of work because the store is out of order. -/
def refused? (h : Hub) : Piece → Option DirectRecord
  | .react (.direct sender receiver text) =>
    match (h.react (.direct sender receiver text)).1 with
    | .result (.unavailable _) => some (DirectRecord.new sender receiver text)
    | _ => none
  | .serve name =>
    match h.deeds (.serve name), (h.connections.get? name).bind fun c => c.session.user with
    | [.answered _ (.direct receiver text) (.error .storeUnavailable _)], some user =>
      some (DirectRecord.new user ⟨receiver⟩ text)
    | _, _ => none
  | _ => none

/-- Whether in all pieces a direct message is refused, or the log is left alone and no time
passes. -/
def retries (h : Hub) : List Piece → Bool
  | [] => true
  | p :: ps =>
    ((h.refused? p).isSome || decide ((h.piece p).journal.store.log = h.journal.store.log ∧
      (h.piece p).journal.now = h.journal.now)) && (h.piece p).retries ps

/-- The messages refused in a series of pieces although they could be appended. -/
def leftBehind (h : Hub) : List Piece → List DirectRecord
  | [] => []
  | p :: ps =>
    ((h.refused? p).filter fun _ => h.journal.store.outages.push = none).toList ++
      (h.piece p).leftBehind ps

/-- What a connection was answered, it was answered to the first thing in its inbox. -/
theorem serve_of_answered {name n : Label} {request : Request} {f : Frame}
    (hdeeds : h.deeds (.serve name) = [.answered n request f]) :
    (h.serveNext name).isSome = true ∧ ∃ c s rest, h.connections.get? name = some c ∧
      c.inbox = .text s :: rest ∧ Request.parse s = .ok request ∧ ∃ c' g,
        ({ h with journal := h.leaveFor name c request } : Hub).serve { c with inbox := rest }
          request = .reply f c' g := by
  cases hserve : h.serveNext name with
  | none => simp [deeds, hserve] at hdeeds
  | some h' =>
      refine ⟨rfl, ?_⟩
      have hserved : (h.served? name).toList = [.answered n request f] := by
        simpa [deeds, hserve] using hdeeds
      obtain ⟨c, first, rest, hc, -, hinbox, ⟨rfl, -⟩ | ⟨s, rfl, ⟨r, hparse, -⟩ |
        ⟨request', hparse, -⟩⟩⟩ := serveNext_cases hserve
      · simp [served?, hc, hinbox] at hserved
      · simp [served?, hc, hinbox, hparse] at hserved
      · rw [served?_of_text hc hinbox hparse] at hserved
        rcases hserve : ({ h with journal := h.leaveFor name c request' } : Hub).serve
          { c with inbox := rest } request' with ⟨f', c', g⟩ | ⟨c', g⟩
        · rw [hserve] at hserved
          simp only [Served.deed, Option.toList, List.cons.injEq, Deed.answered.injEq,
            and_true] at hserved
          obtain ⟨-, rfl, rfl⟩ := hserved
          exact ⟨c, s, rest, hc, hinbox, hparse, c', g, hserve⟩
        · rw [hserve] at hserved
          simp [Served.deed] at hserved

/-- The log's side of a message that was attempted and refused: either half of the attempt was out
of order. -/
structure Refused (h : Hub) (mvs : List (Journal.Move Task)) (d : DirectRecord) : Prop where
  moves : ∃ gate, mvs = [.gate gate,
    .aside (.append (directKey d.sender d.receiver) d.json h.tuning.ttl)]
  outages : h.journal.store.outages.push = none → h.journal.store.outages.expire ≠ none

theorem refused_of_direct {g : Hub}
    (houtages : g.journal.store.outages = h.journal.store.outages) {sender receiver : UserId}
    {text reason : String} (hrefused : (g.direct sender receiver text).1 = .unavailable reason)
    (gate : Option (Gate Task)) :
    Refused h (.gate gate :: h.directMoves sender receiver text)
      (DirectRecord.new sender receiver text) := by
  refine ⟨⟨gate, rfl⟩, fun hpush => ?_⟩
  rw [direct_eq] at hrefused
  rcases Store.write_unavailable hrefused with hfailed | ⟨-, hfailed⟩
  · rw [houtages, hpush] at hfailed
    simp at hfailed
  · rw [← houtages, hfailed]
    simp

theorem refused_of_react {sender receiver : UserId} {text reason : String}
    (hanswer : (h.react (.direct sender receiver text)).1 = .result (.unavailable reason)) :
    Refused h (h.logSide (.react (.direct sender receiver text)))
      (DirectRecord.new sender receiver text) := by
  have houtages : (h.acquire .caller).2.journal.store.outages = h.journal.store.outages := by
    rw [(logs_acquire h .caller).journal]
    rfl
  simp only [react] at hanswer
  simp only [logSide, reactMoves]
  rcases hacquire : h.acquire .caller with ⟨granted, g⟩
  rw [hacquire] at hanswer houtages
  cases granted with
  | false => simp at hanswer
  | true =>
      have hrefused : (g.direct sender receiver text).1 = .unavailable reason := by
        dsimp only at hanswer
        rcases hdirect : g.direct sender receiver text with ⟨r, g'⟩
        rw [hdirect] at hanswer
        cases r with
        | answered a => simp at hanswer
        | unavailable r => simpa using hanswer
        | overflow => simp at hanswer
      exact refused_of_direct houtages hrefused _

theorem refused_of_serve {name n : Label} {receiver text message : String} {user : UserId}
    (hdeeds : h.deeds (.serve name) =
      [.answered n (.direct receiver text) (.error .storeUnavailable message)])
    (huser : ((h.connections.get? name).bind fun c => c.session.user) = some user) :
    Refused h (h.logSide (.serve name)) (DirectRecord.new user ⟨receiver⟩ text) := by
  obtain ⟨hserve, c, s, rest, hc, hinbox, hparse, c', g, hserved⟩ := serve_of_answered hdeeds
  have hknown : c.session.user = some user := by simpa [hc] using huser
  simp only [logSide, hserve, if_true, serveMoves, hc, hinbox, hparse, requestMoves, hknown]
  have houtages : (h.leaveFor name c (.direct receiver text)).store.outages =
      h.journal.store.outages := by
    have hjournal := (logs_leaveFor h name c (.direct receiver text)).journal
    rw [show h.leaveFor name c (.direct receiver text) = _ from hjournal]
    rfl
  simp only [serve, hknown] at hserved
  rcases hdirect : ({ h with journal := h.leaveFor name c (.direct receiver text) } : Hub).direct
    user ⟨receiver⟩ text with ⟨r, g'⟩
  rw [hdirect] at hserved
  cases r with
  | answered a => simp at hserved
  | unavailable reason =>
      exact refused_of_direct
        (g := { h with journal := h.leaveFor name c (.direct receiver text) }) houtages
        (congrArg Prod.fst hdirect) _
  | overflow => simp at hserved

/-- Whoever sends a message that is refused, it was attempted. -/
theorem refused_of_refused? {p : Piece} {d : DirectRecord} (hd : h.refused? p = some d) :
    Refused h (h.logSide p) d := by
  cases p with
  | react e =>
      cases e with
      | direct sender receiver text =>
          simp only [refused?] at hd
          split at hd
          case h_1 reason hanswer =>
            rw [← Option.some.inj hd]
            exact refused_of_react hanswer
          case h_2 => simp at hd
      | _ => simp [refused?] at hd
  | serve name =>
      simp only [refused?] at hd
      split at hd
      case h_1 hdeeds huser =>
        rw [← Option.some.inj hd]
        exact refused_of_serve hdeeds huser
      case h_2 => simp at hd
  | _ => simp [refused?] at hd

/-- What a refused message leaves in the log: itself, if it could be appended. -/
theorem log_of_refused {p : Piece} {d : DirectRecord} (hd : h.refused? p = some d) :
    (h.piece p).journal.now = h.journal.now ∧ (h.piece p).journal.store.log =
      if h.journal.store.outages.push = none then
        h.journal.store.log.push h.journal.now (directKey d.sender d.receiver) d.json
      else h.journal.store.log := by
  obtain ⟨⟨gate, hmoves⟩, houtages⟩ := refused_of_refused? hd
  have hjournal := (logs_piece h p).journal
  rw [hmoves] at hjournal
  have hlog : (h.piece p).journal.store.log = Attempt.perform h.journal.store.log
      (h.journal.attempt (.append (directKey d.sender d.receiver) d.json h.tuning.ttl)) := by
    rw [hjournal]
    exact Store.log_apply { h.journal.store with gate } h.journal.now _
  refine ⟨by rw [hjournal]; rfl, ?_⟩
  rw [hlog]
  cases hpush : h.journal.store.outages.push with
  | some reason => simp [Attempt.perform, Journal.attempt, hpush]
  | none =>
      have hexpire := Option.isSome_iff_ne_none.2 (houtages hpush)
      simp [Attempt.perform, Journal.attempt, hpush, hexpire]

/-- The values that a key shows. -/
def shownUnder (h : Hub) (key : String) : List String :=
  ((h.journal.store.log.live? h.journal.now key).map LogEntry.values).getD []

theorem shownUnder_of_push {g : Hub} {k value : String} (hnow : g.journal.now = h.journal.now)
    (hlog : g.journal.store.log = h.journal.store.log.push h.journal.now k value) (key : String) :
    g.shownUnder key = h.shownUnder key ++ if k = key then [value] else [] := by
  rw [shownUnder, hnow, hlog, ExpiringLog.live?_push, shownUnder]
  by_cases hkey : k = key
  · subst hkey
    cases h.journal.store.log.live? h.journal.now k <;> simp [LogEntry.appended]
  · simp [hkey, Ne.symm hkey]

theorem entries_push_of_ne (log : ExpiringLog) (now : Time) {k key : String} (value : String)
    (hkey : k ≠ key) : (log.push now k value).entries.get? key = log.entries.get? key := by
  unfold ExpiringLog.push
  split <;> simp [hkey.symm]

/-- One piece: what is left behind stands behind what its key showed. -/
theorem shownUnder_piece {p : Piece} (hp : h.retries [p] = true) (key : String) :
    let left := (h.leftBehind [p]).filter fun d => directKey d.sender d.receiver = key
    (h.piece p).shownUnder key = h.shownUnder key ++ left.map DirectRecord.json ∧
      (left = [] → (h.piece p).journal.store.log.entries.get? key =
        h.journal.store.log.entries.get? key) := by
  simp only [retries, Bool.and_true, Bool.or_eq_true, decide_eq_true_eq] at hp
  simp only [leftBehind, List.append_nil]
  cases hrefused : h.refused? p with
  | none =>
      obtain ⟨hlog, hnow⟩ := hp.resolve_left (by simp [hrefused])
      simp [shownUnder, hlog, hnow]
  | some d =>
      obtain ⟨hnow, hlog⟩ := log_of_refused hrefused
      by_cases hpush : h.journal.store.outages.push = none
      · rw [if_pos hpush] at hlog
        have hshown := shownUnder_of_push hnow hlog key
        by_cases hkey : directKey d.sender d.receiver = key
        · simp [hpush, hkey, hshown, Option.filter]
        · simp [hpush, hkey, hshown, hlog, entries_push_of_ne _ _ _ hkey]
      · rw [if_neg hpush] at hlog
        simp [hpush, shownUnder, hnow, hlog]

/-- A run, by induction on its pieces. -/
theorem shownUnder_pieces (h : Hub) {ps : List Piece} (hps : h.retries ps = true) (key : String) :
    let left := (h.leftBehind ps).filter fun d => directKey d.sender d.receiver = key
    (h.pieces ps).shownUnder key = h.shownUnder key ++ left.map DirectRecord.json ∧
      (left = [] → (h.pieces ps).journal.store.log.entries.get? key =
        h.journal.store.log.entries.get? key) := by
  induction ps generalizing h with
  | nil => simp [leftBehind]
  | cons p ps ih =>
      rw [retries, Bool.and_eq_true] at hps
      obtain ⟨hfirst, hsame⟩ := shownUnder_piece (by simpa [retries] using hps.1) key
      obtain ⟨hrest, hkept⟩ := ih (h.piece p) hps.2
      simp only [leftBehind, List.append_nil] at hfirst hsame
      simp only [leftBehind, List.filter_append, List.map_append, List.append_eq_nil_iff,
        pieces_cons]
      exact ⟨by rw [hrest, hfirst, List.append_assoc],
        fun hnone => (hkept hnone.2).trans (hsame hnone.1)⟩

/-- Where the log can be read, direct messages are those of the values that a key shows. -/
theorem getDirect_fst (hrange : h.journal.store.outages.range = none) (sender receiver : UserId) :
    (h.getDirect sender receiver).1 =
      .ok (readable DirectRecord.parse (h.shownUnder (directKey sender receiver))) := by
  have hread : (h.call (.range (directKey sender receiver) 0 (-1))).1 =
      .answered (.values (h.shownUnder (directKey sender receiver))) := by
    simp [call, Store.call, Outages.reason, hrange, ExpiringLog.call, ExpiringLog.range_all,
      shownUnder]
  unfold getDirect
  rcases hcall : h.call (.range (directKey sender receiver) 0 (-1)) with ⟨r, g⟩
  rw [hcall] at hread
  dsimp only at hread
  rw [hread]

/-- Direct messages that are refused, one after the other and whatever is out of order at each: what
a key shows afterwards is what it showed before, and behind it the messages of its pair that could
be appended. A key without such messages is as it was. In particular a message whose append fails
leaves nothing behind however often it is sent, and one of which only the deadline cannot be set is
stored once more with every attempt. -/
theorem refused_stored (h : Hub) {ps : List Piece} (hps : h.retries ps = true) :
    let g := h.pieces ps
    let left (key : String) :=
      (h.leftBehind ps).filter fun d => directKey d.sender d.receiver = key
    (∀ key, g.shownUnder key = h.shownUnder key ++ (left key).map DirectRecord.json ∧
      (left key = [] →
        g.journal.store.log.entries.get? key = h.journal.store.log.entries.get? key)) ∧
    ∀ sender receiver, g.journal.store.outages.range = none →
      (g.getDirect sender receiver).1 = .ok
        (h.filed (directKey sender receiver) ++ left (directKey sender receiver)) := by
  intro g left
  have hshown : ∀ key, g.shownUnder key = h.shownUnder key ++ (left key).map DirectRecord.json ∧
      (left key = [] → g.journal.store.log.entries.get? key =
        h.journal.store.log.entries.get? key) := fun key => shownUnder_pieces h hps key
  refine ⟨hshown, fun sender receiver hrange => ?_⟩
  have hleft : readable DirectRecord.parse
      ((left (directKey sender receiver)).map DirectRecord.json) =
        left (directKey sender receiver) := readable_map fun d _ => d.parse_json
  rw [getDirect_fst hrange, (hshown (directKey sender receiver)).1]
  simp only [readable, List.filterMap_append] at hleft ⊢
  rw [hleft]
  rfl

/-- One message is sent three times: while its deadline cannot be set, while nothing can be written,
and, by a client, while its deadline cannot be set again. -/
def sentAgain : List Piece :=
  [.react (.outages ⟨none, none, some "down", none, none⟩), .react (.direct ⟨"a"⟩ ⟨"b"⟩ "x"),
    .react (.outages ⟨some "down", none, some "down", none, none⟩),
    .react (.direct ⟨"a"⟩ ⟨"b"⟩ "x"), .react (.outages ⟨none, none, some "down", none, none⟩),
    .react (.connect "c" "1"),
    .react (.text "c" "\x7b\"type\":\"identify\",\"user_id\":\"a\"\x7d"), .serve "c",
    .react (.text "c" "\x7b\"type\":\"direct\",\"receiver_id\":\"b\",\"text\":\"x\"\x7d"),
    .serve "c"]

theorem refused_stored_sent_again :
    let h := new Tuning.default Outages.none false default
    let d : DirectRecord := ⟨⟨"a"⟩, ⟨"b"⟩, "x", true⟩
    h.retries sentAgain = true ∧ h.leftBehind sentAgain = [d, d] ∧
      ((h.pieces sentAgain).getDirect ⟨"a"⟩ ⟨"b"⟩).1 = .ok [d, d] := by
  intro h d
  have hretries : h.retries sentAgain = true := by decide +kernel
  have hleft : h.leftBehind sentAgain = [d, d] := by decide +kernel
  have hanswer := (refused_stored h hretries).2 ⟨"a"⟩ ⟨"b"⟩ (by decide +kernel)
  rw [hleft] at hanswer
  exact ⟨hretries, hleft, hanswer⟩

/-- A message of which only the deadline cannot be set is refused, and shown all the same; sent
again, it is shown twice. -/
theorem stored_though_refused :
    let down : Outages := ⟨none, none, some "down", none, none⟩
    let sent : Moment := ⟨default, .direct ⟨"a"⟩ ⟨"b"⟩ "x"⟩
    let d : DirectRecord := ⟨⟨"a"⟩, ⟨"b"⟩, "x", true⟩
    let h := new Tuning.default down false default
    (h.face sent).1 = .result (.unavailable "down") ∧
      (h.step (.getDirect ⟨"a"⟩ ⟨"b"⟩)).1 = .directs [] ∧
      ((h.through [sent]).step (.getDirect ⟨"a"⟩ ⟨"b"⟩)).1 = .directs [d] ∧
      ((h.through [sent, sent]).step (.getDirect ⟨"a"⟩ ⟨"b"⟩)).1 = .directs [d, d] := by
  exact ⟨rfl, rfl, rfl, rfl⟩

end Hub

end ChatServer
