import ChatServer.Log.Expiring

/-!
Reading a list between two bounds is reading it at the positions between them. A bound stands for a
position whether or not there is one, so none has to be brought into the list first.
-/

namespace ChatServer

/-- The position that a bound of a list of `len` values stands for; a negative one counts from the
end. -/
def boundPosition (len : Nat) (b : Int) : Int := if b < 0 then len + b else b

/-- The values at the positions between two inclusive bounds. -/
def valuesBetween (vs : List String) (start stop : Int) : List String :=
  (vs.zipIdx.filter fun p => decide (boundPosition vs.length start ≤ (p.2 : Int) ∧
    (p.2 : Int) ≤ boundPosition vs.length stop)).map Prod.fst

/-- The values whose positions lie between `first` and `last`, by induction on the list. -/
theorem filter_zipIdx (vs : List String) (k : Nat) (first last : Int) :
    ((vs.zipIdx k).filter fun p => decide (first ≤ (p.2 : Int) ∧ (p.2 : Int) ≤ last)).map Prod.fst =
      (vs.drop (first - k).toNat).take (last + 1 - max first k).toNat := by
  induction vs generalizing k with
  | nil => simp
  | cons v vs ih =>
      rw [List.zipIdx_cons, List.filter_cons]
      by_cases hfirst : first ≤ k
      · have hdrop : (first - (k : Int)).toNat = 0 := by omega
        have hdrop' : (first - ((k + 1 : Nat) : Int)).toNat = 0 := by omega
        by_cases hlast : (k : Int) ≤ last
        · have htake : (last + 1 - max first k).toNat =
              (last + 1 - max first (k + 1 : Nat)).toNat + 1 := by omega
          rw [if_pos (by simp [hfirst, hlast]), List.map_cons, ih, hdrop, hdrop', htake]
          rfl
        · have htake : (last + 1 - max first k).toNat = 0 := by omega
          have htake' : (last + 1 - max first (k + 1 : Nat)).toNat = 0 := by omega
          rw [if_neg (by simp [hlast]), ih, htake, htake', List.take_zero, List.take_zero]
      · have hdrop : (first - (k : Int)).toNat = (first - ((k + 1 : Nat) : Int)).toNat + 1 := by
          omega
        have htake : max first k = max first (k + 1 : Nat) := by omega
        rw [if_neg (by simp [hfirst]), ih, hdrop, htake]
        rfl

/-- What stands between two bounds stands together. -/
theorem valuesBetween_eq (vs : List String) (start stop : Int) :
    valuesBetween vs start stop =
      (vs.drop (boundPosition vs.length start).toNat).take
        (boundPosition vs.length stop + 1 - max (boundPosition vs.length start) 0).toNat := by
  have hbetween := filter_zipIdx vs 0 (boundPosition vs.length start)
    (boundPosition vs.length stop)
  rw [Int.ofNat_zero, Int.sub_zero] at hbetween
  exact hbetween

/-- The first position read is that of the first bound, or the very first. -/
theorem resolveRange_first (len : Nat) (start : Int) :
    (if start < 0 then max (len + start) 0 else start) = max (boundPosition len start) 0 := by
  unfold boundPosition
  split <;> omega

/-- The last position read is that of the last bound, or the very last. -/
theorem resolveRange_last (len : Nat) (stop : Int) :
    (if stop < 0 then len + stop else min stop (len - 1)) =
      min (boundPosition len stop) (len - 1) := by
  unfold boundPosition
  split <;> omega

/-- What is read between two bounds stands at the positions between them. -/
theorem readRange_eq_valuesBetween (vs : List String) (start stop : Int) :
    readRange vs start stop = valuesBetween vs start stop := by
  rw [valuesBetween_eq, readRange, resolveRange, resolveRange_first, resolveRange_last]
  generalize boundPosition vs.length start = first
  generalize boundPosition vs.length stop = last
  have hdrop : first.toNat = (max first 0).toNat := by omega
  rw [hdrop]
  -- whether no position of the list lies between them
  by_cases hempty : vs.length = 0 ∨ min last ((vs.length : Int) - 1) < max first 0 ∨
      (vs.length : Int) ≤ max first 0
  · rw [if_pos hempty]
    apply Eq.symm
    apply List.eq_nil_of_length_eq_zero
    rw [List.length_take, List.length_drop]
    omega
  · rw [if_neg hempty]
    dsimp only
    rw [List.take_eq_take_iff, List.length_drop]
    omega

end ChatServer
