import ChatServer.CommandLine.Parse
import ChatServer.Proofs.RoundTrip.Bytes

/-!
What a command line is accepted with. Every number among the settings fits the type it is kept in,
wherever it was given; and for the time to live every number that fits is accepted.
-/

namespace ChatServer

/-- Settings whose numbers fit: the port has 16 bits and all others have 64. -/
structure Settings.Fits (s : Settings) : Prop where
  port : s.port ≤ 65535
  commandBuffer : s.commandBuffer < naturalEnd
  subscriberBuffer : s.subscriberBuffer < naturalEnd
  logQueue : s.logQueue < naturalEnd
  messageTtl : s.messageTtlSeconds < naturalEnd

namespace CommandLine

/-! ### Numbers -/

theorem digitsFrom_ge (n : Nat) (cs : List Char) : n ≤ digitsFrom n cs := by
  induction cs generalizing n with
  | nil => exact Nat.le_refl n
  | cons c cs ih =>
      have hnext : n ≤ 10 * n + (c.toNat - 48) := by omega
      exact Nat.le_trans hnext (ih _)

/-- Digits are read as the number they write, unless it is too large. -/
theorem readDigits_eq_ok {most n m : Nat} {beyond : NumberError} {cs : List Char}
    (hn : n ≤ most) :
    readDigits most beyond n cs = .ok m ↔
      (∀ c ∈ cs, isDigit c = true) ∧ digitsFrom n cs = m ∧ m ≤ most := by
  induction cs generalizing n with
  | nil =>
      simp only [readDigits, Except.ok.injEq, List.not_mem_nil, false_implies, implies_true,
        true_and, digitsFrom, List.foldl_nil]
      exact ⟨fun h => ⟨h, h ▸ hn⟩, And.left⟩
  | cons c cs ih =>
      have hcons : digitsFrom n (c :: cs) = digitsFrom (10 * n + (c.toNat - 48)) cs := rfl
      have hge := digitsFrom_ge (10 * n + (c.toNat - 48)) cs
      rw [readDigits, List.forall_mem_cons, hcons]
      by_cases hdigit : isDigit c = true
      · by_cases hmost : most < 10 * n + (c.toNat - 48)
        · simp only [hdigit, hmost, Bool.not_true, Bool.false_eq_true, if_false, if_true,
            reduceCtorEq, false_iff]
          rintro ⟨-, rfl, hle⟩
          omega
        · simp only [hdigit, hmost, Bool.not_true, Bool.false_eq_true, if_false, true_and]
          exact ih (Nat.le_of_not_lt hmost)
      · simp [hdigit]

theorem readDigits_le {most n : Nat} {beyond : NumberError} {cs : List Char}
    (h : readDigits most beyond 0 cs = .ok n) : n ≤ most :=
  ((readDigits_eq_ok (Nat.zero_le most)).1 h).2.2

theorem readNatural_le {most n : Nat} {cs : List Char} (h : readNatural most cs = .ok n) :
    n ≤ most := by
  unfold readNatural at h
  split at h
  · cases h
  · cases h
  · exact readDigits_le h
  · exact readDigits_le h

theorem readSize_lt {s : String} {n : Nat} (h : readSize s = .ok n) : n < naturalEnd := by
  have hle := readNatural_le h
  have hpos : 0 < naturalEnd := by decide
  omega

theorem readPort_le {s : String} {n : Nat} (h : readPort s = .ok n) : n ≤ 65535 := by
  unfold readPort at h
  split at h
  · cases h
  · split at h
    case isTrue hport =>
      obtain rfl := Except.ok.inj h
      omega
    case isFalse => cases h

/-- Digits without a sign are read as the number they write. -/
theorem readNatural_padded {most n : Nat} (h : n ≤ most) :
    readNatural most (padded 0 n) = .ok n := by
  obtain ⟨d, ds, hcons, hdigit⟩ := exists_padded_eq_cons 0 n
  have hplus : d ≠ '+' := ne_of_isDigit hdigit (by decide)
  have hread : readDigits most .tooLarge 0 (padded 0 n) = .ok n :=
    (readDigits_eq_ok (Nat.zero_le most)).2
      ⟨fun c hc => isDigit_of_mem_padded hc, digitsValue_padded 0 n, h⟩
  rw [hcons] at hread ⊢
  rw [readNatural.eq_4 _ _ (by simp) (by simp [hplus]) (by simp [hplus])]
  exact hread

theorem readSize_toString {n : Nat} (h : n < naturalEnd) : readSize (toString n) = .ok n := by
  rw [readSize, toList_toString_natural]
  exact readNatural_padded (Nat.le_pred_of_lt h)

/-! ### Settings -/

theorem exists_of_map_eq_ok {ε α β : Type} {x : Except ε α} {f : α → β} {b : β}
    (h : x.map f = .ok b) : ∃ a, x = .ok a ∧ f a = b := by
  cases x with
  | error e => cases h
  | ok a => exact ⟨a, rfl, Except.ok.inj h⟩

variable {d d' : Draft} {o : Opt} {v : String}

theorem fits_empty : Draft.empty.settings.Fits := by
  constructor <;> decide

/-- A number that is taken up has been read within its bounds. -/
theorem fits_set (hd : d.settings.Fits) (h : d.set o v = .ok d') : d'.settings.Fits := by
  obtain ⟨hport, hcommands, hpayloads, hwrites, httl⟩ := hd
  cases o with
  | host | redisUrl =>
      obtain rfl := Except.ok.inj h
      exact ⟨hport, hcommands, hpayloads, hwrites, httl⟩
  | port =>
      obtain ⟨n, hn, rfl⟩ := exists_of_map_eq_ok h
      exact ⟨readPort_le hn, hcommands, hpayloads, hwrites, httl⟩
  | commandBuffer =>
      obtain ⟨n, hn, rfl⟩ := exists_of_map_eq_ok h
      exact ⟨hport, readSize_lt hn, hpayloads, hwrites, httl⟩
  | subscriberBuffer =>
      obtain ⟨n, hn, rfl⟩ := exists_of_map_eq_ok h
      exact ⟨hport, hcommands, readSize_lt hn, hwrites, httl⟩
  | logQueue =>
      obtain ⟨n, hn, rfl⟩ := exists_of_map_eq_ok h
      exact ⟨hport, hcommands, hpayloads, readSize_lt hn, httl⟩
  | messageTtl =>
      obtain ⟨n, hn, rfl⟩ := exists_of_map_eq_ok h
      exact ⟨hport, hcommands, hpayloads, hwrites, readSize_lt hn⟩

theorem fits_store (hd : d.settings.Fits) (h : State.store d o v = .ok d') :
    d'.settings.Fits := by
  unfold State.store at h
  split at h
  · cases h
  · cases hset : d.set o v with
    | error reason => simp only [hset, reduceCtorEq] at h
    | ok d₁ =>
        simp only [hset] at h
        obtain rfl := Except.ok.inj h
        exact fits_set hd hset

variable {s s' : State}

theorem fits_resolve (hs : s.draft.settings.Fits) (h : s.resolve = .ok d) : d.settings.Fits := by
  unfold State.resolve at h
  split at h
  · obtain rfl := Except.ok.inj h
    exact hs
  · cases h
  · exact fits_store hs h

theorem fits_meet {value : Option String} (hs : s.draft.settings.Fits)
    (h : s.meet o value = .ok s') : s'.draft.settings.Fits := by
  unfold State.meet at h
  cases hresolve : s.resolve with
  | error e => simp only [hresolve, reduceCtorEq] at h
  | ok d₁ =>
      simp only [hresolve] at h
      have hd := fits_resolve hs hresolve
      cases value with
      | none =>
          obtain rfl := Except.ok.inj h
          exact hd
      | some v =>
          cases hstore : State.store d₁ o v with
          | error e => simp only [hstore, reduceCtorEq] at h
          | ok d₂ =>
              simp only [hstore] at h
              obtain rfl := Except.ok.inj h
              exact fits_store hd hstore

theorem meetHelp_ne_ok : s.meetHelp ≠ .ok s' := by
  unfold State.meetHelp
  split <;> simp

/-- An argument that is taken is an option or the value of the last one. -/
theorem readArgument_cases {arg : String} (h : readArgument s arg = .ok s') :
    (∃ o value, s.meet o value = .ok s') ∨
      ∃ o, s.last = some (o, none) ∧ s' = { s with last := some (o, some arg) } := by
  unfold readArgument at h
  split at h
  · dsimp only at h
    split at h
    · exact .inl ⟨_, _, h⟩
    · split at h
      · split at h
        · exact absurd h meetHelp_ne_ok
        · cases h
      · cases h
  · split at h
    · exact absurd h meetHelp_ne_ok
    · split at h
      · cases h
      · split at h <;> exact .inl ⟨_, _, h⟩
  · split at h
    case h_1 o hlast => exact .inr ⟨o, hlast, (Except.ok.inj h).symm⟩
    case h_2 => cases h

theorem fits_readArguments {args : List String} (hs : s.draft.settings.Fits)
    (h : readArguments s args = .ok d) : d.settings.Fits := by
  induction args generalizing s with
  | nil => exact fits_resolve hs h
  | cons arg args ih =>
      unfold readArguments at h
      split at h
      · split at h
        · exact fits_resolve hs h
        · cases h
      · cases hread : readArgument s arg with
        | error e => simp only [hread, reduceCtorEq] at h
        | ok s' =>
            simp only [hread] at h
            refine ih ?_ h
            rcases readArgument_cases hread with ⟨o, value, hmeet⟩ | ⟨o, -, rfl⟩
            · exact fits_meet hs hmeet
            · exact hs

theorem fits_readEnvironment {env : Environment} {os : List Opt} (hd : d.settings.Fits)
    (h : readEnvironment env d os = .ok d') : d'.settings.Fits := by
  induction os generalizing d with
  | nil =>
      obtain rfl := Except.ok.inj h
      exact hd
  | cons o os ih =>
      unfold readEnvironment at h
      split at h
      · exact ih hd h
      · cases hvalue : env.lookup o.envName with
        | none =>
            simp only [hvalue] at h
            exact ih hd h
        | some v =>
            simp only [hvalue] at h
            cases hstore : State.store d o v with
            | error e => simp only [hstore, reduceCtorEq] at h
            | ok d₁ =>
                simp only [hstore] at h
                exact ih (fits_store hd hstore) h

/-- **Every number that is accepted fits.** -/
theorem fits_parse {args : List String} {env : Environment} {settings : Settings}
    (h : parse args env = .ok settings) : settings.Fits := by
  unfold parse at h
  cases hread : readArguments ⟨Draft.empty, none⟩ args with
  | error e => simp only [hread, reduceCtorEq] at h
  | ok d =>
      simp only [hread] at h
      cases henv : readEnvironment env d Opt.all with
      | error e => simp only [henv, reduceCtorEq] at h
      | ok d' =>
          simp only [henv] at h
          obtain rfl := Except.ok.inj h
          exact fits_readEnvironment (fits_readArguments fits_empty hread) henv

/-! ### The time to live -/

/-- Where nothing is set nothing is taken from. -/
theorem readEnvironment_empty (d : Draft) (os : List Opt) : readEnvironment [] d os = .ok d := by
  induction os with
  | nil => rfl
  | cons o os ih =>
      rw [readEnvironment, List.lookup_nil, ih]
      exact ite_self _

/-- Every number of 64 bits is accepted for the time to live. -/
theorem parse_messageTtl {n : Nat} (h : n < naturalEnd) :
    parse ["--message-ttl-secs", toString n] [] =
      .ok { Settings.default with messageTtlSeconds := n } := by
  obtain ⟨c, cs, hcons, hdigit⟩ := exists_padded_eq_cons 0 n
  have hlist : (toString n).toList = c :: cs := (toList_toString_natural n).trans hcons
  have hhyphen : c ≠ '-' := ne_of_isDigit hdigit (by decide)
  have hend : toString n ≠ "--" := by
    intro heq
    rw [heq] at hlist
    exact hhyphen (List.cons.inj hlist).1.symm
  have hoption : readArgument ⟨Draft.empty, none⟩ "--message-ttl-secs" =
      .ok ⟨Draft.empty, some (.messageTtl, none)⟩ := by
    rfl
  have hvalue : readArgument ⟨Draft.empty, some (.messageTtl, none)⟩ (toString n) =
      .ok ⟨Draft.empty, some (.messageTtl, some (toString n))⟩ := by
    rw [readArgument, hlist]
    simp [hhyphen]
  have hset : Draft.empty.set .messageTtl (toString n) =
      .ok { Draft.empty with messageTtl := some n } := by
    rw [Draft.set, readSize_toString h]
    rfl
  have hresolve : State.resolve ⟨Draft.empty, some (.messageTtl, some (toString n))⟩ =
      .ok { Draft.empty with messageTtl := some n } := by
    simp only [State.resolve, State.store, hset]
    rfl
  have hread : readArguments ⟨Draft.empty, none⟩ ["--message-ttl-secs", toString n] =
      .ok { Draft.empty with messageTtl := some n } := by
    rw [readArguments, if_neg (by decide), hoption]
    simp only
    rw [readArguments, if_neg hend, hvalue]
    simp only
    rw [readArguments, hresolve]
  rw [parse, hread]
  simp only
  rw [readEnvironment_empty]
  rfl

end CommandLine

end ChatServer
