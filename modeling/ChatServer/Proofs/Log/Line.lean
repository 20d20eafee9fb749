import ChatServer.Proofs.Log.Replay

/-!
The line of writes as a history. What a key shows depends on the writes made so far and on nothing
else, and of these only on the ones that name the key.
-/

namespace ChatServer

namespace LogWrite

/-- Whether a write is to a key. -/
def concerns (key : String) : LogWrite → Bool
  | .append k _ _ | .purge k => k = key
  | .flush _ => false

/-- The clock can show the deadline of a write, and the deadline is not reached at once. -/
def Lasting (now : Time) : LogWrite → Prop
  | .append _ _ ttl => 0 < ttl ∧ now + ttl < Time.limit
  | _ => True

/-- What a write makes of the entry of a key. -/
def alter (now : Time) (key : String) (e : Option LogEntry) : LogWrite → Option LogEntry
  | .append k value ttl =>
    if k = key then some { LogEntry.appended e value with deadline := some (now + ttl) } else e
  | .purge k => if k = key then none else e
  | .flush _ => e

theorem Lasting.timely {now : Time} {x : LogWrite} (h : x.Lasting now) : x.Timely now := by
  cases x with
  | append key value ttl => exact h.2
  | purge key => trivial
  | flush ticket => trivial

theorem alter_of_not_concerns {now : Time} {key : String} {x : LogWrite}
    (h : x.concerns key = false) (e : Option LogEntry) : alter now key e x = e := by
  cases x <;> simp_all [concerns, alter]

/-- Only the writes to a key matter to it. -/
theorem foldl_alter_filter (now : Time) (key : String) (line : List LogWrite)
    (e : Option LogEntry) :
    (line.filter (concerns key)).foldl (alter now key) e = line.foldl (alter now key) e := by
  induction line generalizing e with
  | nil => rfl
  | cons x line ih =>
      cases hx : x.concerns key with
      | true => simp [hx, ih]
      | false => simp [hx, ih, alter_of_not_concerns hx]

end LogWrite

/-- A working store makes every write. -/
theorem Store.live?_apply {α : Type} {s : Store α} (h : s.outages = Outages.none) {now : Time}
    {x : LogWrite} (hx : x.Lasting now) (key : String) :
    (s.apply now x).log.live? now key = LogWrite.alter now key (s.log.live? now key) x := by
  cases x with
  | append k value ttl =>
      rw [Store.apply, Store.live?_write h _ _ _ hx.2]
      by_cases hk : key = k
      · simp [LogWrite.alter, hk, hx.1]
      · simp [LogWrite.alter, hk, Ne.symm hk]
  | purge k =>
      rw [Store.live?_apply_purge h]
      by_cases hk : key = k
      · simp [LogWrite.alter, hk]
      · simp [LogWrite.alter, hk, Ne.symm hk]
  | flush ticket => rfl

/-- The writes of which those that name a key are known. -/
theorem exists_take_of_prefix {α β : Type} {p : α → Bool} {f : β → α} {xs ys : List α}
    {zs : List β} (hxs : xs <+: ys) (hys : ys.filter p = zs.map f) :
    ∃ ws, ws <+: zs ∧ xs.filter p = ws.map f := by
  obtain ⟨rest, rfl⟩ := hxs
  rw [List.filter_append] at hys
  obtain ⟨ws, vs, rfl, hws, -⟩ := List.map_eq_append_iff.1 hys.symm
  exact ⟨ws, List.prefix_append ws vs, hws.symm⟩

namespace LogWriter

/-- A write that is accepted goes to the end of the line, and one that is refused changes
nothing. -/
theorem push_cases (w : LogWriter) (x : LogWrite) :
    ((w.push x).1.isOk = true ∧
        ∃ pending, (w.push x).2 = { w with queue := w.queue ++ [x], pending }) ∨
      (w.push x).1.isOk = false ∧ (w.push x).2 = w := by
  unfold push
  split
  · exact .inr ⟨rfl, rfl⟩
  · split
    · exact .inr ⟨rfl, rfl⟩
    · exact .inl ⟨rfl, _, rfl⟩

/-- What needs no place is never refused by a running writer. -/
theorem push_isOk_of_running {w : LogWriter} {x : LogWrite} (hphase : w.phase = .running)
    (hx : x.isAppend = false) : (w.push x).1.isOk = true := by
  simp [push, hx, accepting, hphase, Except.isOk, Except.toBool]

end LogWriter

end ChatServer
