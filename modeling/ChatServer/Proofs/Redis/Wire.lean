import ChatServer.Proofs.RoundTrip.Bytes
import ChatServer.Redis.Connection

/-!
The replies a server of lists sends, as bytes, and what a client makes of them. An integer stands on
a line of its own; a text stands behind its length, and the texts of a list behind their number. The
reader goes through such bytes step by step and comes out with the reply, as it was before.
-/

namespace ChatServer.Redis

/-! ### Replies as bytes -/

/-- A line that holds a number, behind the byte of its kind. -/
def numberLine (kind : UInt8) (n : Int) : List UInt8 :=
  kind :: (bytesOf (toString n) ++ [0x0d, 0x0a])

def integerBytes (n : Int) : List UInt8 := numberLine 0x3a n

def textBytes (s : String) : List UInt8 :=
  numberLine 0x24 (bytesOf s).length ++ (bytesOf s ++ [0x0d, 0x0a])

def listBytes (ss : List String) : List UInt8 :=
  numberLine 0x2a ss.length ++ ss.flatMap textBytes

/-- An error that a server replies, on a line of its own. -/
def errorBytes (line : String) : List UInt8 := 0x2d :: (bytesOf line ++ [0x0d, 0x0a])

/-- Whether the number of bytes of a text has 64 bits; no machine holds a longer one. -/
def isSized (s : String) : Bool := decide ((bytesOf s).length < integerEnd)

namespace Decoder

/-! ### Single steps -/

theorem trimStart_eq_self {cs : List Char} (h : ∀ c ∈ cs, isBlank c = false) :
    trimStart cs = cs := by
  cases cs with
  | nil => rfl
  | cons c cs => rw [trimStart_cons, h c List.mem_cons_self, if_neg Bool.false_ne_true]

theorem trim_eq_self {cs : List Char} (h : ∀ c ∈ cs, isBlank c = false) : trim cs = cs := by
  rw [trim, trimStart_eq_self h, trimStart_eq_self fun c hc => h c (List.mem_reverse.1 hc),
    List.reverse_reverse]

theorem splitLine_append {line : List UInt8} (h : (0x0d : UInt8) ∉ line) (rest : List UInt8) :
    splitLine (line ++ 0x0d :: 0x0a :: rest) = some (line, rest) := by
  induction line with
  | nil => rfl
  | cons b line ih =>
      rw [List.mem_cons, not_or] at h
      have hne : b ≠ 0x0d := fun heq => h.1 heq.symm
      rw [List.cons_append, splitLine.eq_3 _ _ fun _ heq => absurd heq hne, ih h.2]
      rfl

variable {around : List OpenArray} {rest : List UInt8}

theorem integer?_trim {n : Int} (hlow : -(integerEnd : Int) ≤ n) (hhigh : n < integerEnd) :
    integer? (trim (toString n).toList) = some n := by
  rw [trim_eq_self fun c hc => isBlank_of_mem_toString hc, integer?_toString hlow hhigh]

theorem integer?_trim_natural {n : Nat} (h : n < integerEnd) :
    integer? (trim (toString (n : Int)).toList) = some (n : Int) :=
  integer?_trim (by omega) (Int.ofNat_lt.2 h)

theorem takeLine_integer {n : Int} (hlow : -(integerEnd : Int) ≤ n) (hhigh : n < integerEnd) :
    takeLine around .integer (toString n) rest = place (.ok (.integer n)) rest around := by
  simp only [takeLine, integer?_trim hlow hhigh]

theorem takeLine_length {n : Nat} (h : n < integerEnd) :
    takeLine around .length (toString (n : Int)) rest = .further ⟨around, .data n, rest⟩ := by
  simp only [takeLine, integer?_trim_natural h]

theorem takeLine_count_zero :
    takeLine around .count (toString (0 : Int)) rest = place (.ok (.array [])) rest around := by
  rfl

theorem takeLine_count_succ {n : Nat} (h : n + 1 < integerEnd) :
    takeLine around .count (toString ((n + 1 : Nat) : Int)) rest =
      .further ⟨⟨n + 1, 0, .ok []⟩ :: around, .kind, rest⟩ := by
  simp only [takeLine, integer?_trim_natural h]
  rfl

/-- The line of a number is read whole. -/
theorem step_line (around : List OpenArray) (k : LineKind) (n : Int) (rest : List UInt8) :
    step ⟨around, .line k, bytesOf (toString n) ++ 0x0d :: 0x0a :: rest⟩ =
      takeLine around k (toString n) rest := by
  simp only [step, splitLine_append (return_not_mem_toString n), spelled?_bytesOf,
    Option.getD_some]

theorem step_lineBreak (s : String) :
    step ⟨around, .lineBreak (bytesOf s), 0x0d :: 0x0a :: rest⟩ =
      place (.ok (.data s)) rest around := by
  simp only [step, spelled?_bytesOf, Option.getD_some]

theorem step_data (data : List UInt8) :
    step ⟨around, .data data.length, data ++ rest⟩ = .further ⟨around, .lineBreak data, rest⟩ := by
  have hlength : ¬(data ++ rest).length < data.length := by
    rw [List.length_append]
    omega
  simp only [step, if_neg hlength, List.take_left, List.drop_left]

/-! ### Series of steps -/

/-- A reader comes to be another in a number of steps, in which no reply ends. -/
def Leads (d : Decoder) (k : Nat) (d' : Decoder) : Prop :=
  ∀ length fuel, d.run length (k + fuel) = d'.run length fuel

variable {d d' d'' : Decoder} {k k' : Nat}

theorem leads_of_step (h : d.step = .further d') : d.Leads 1 d' := by
  intro length fuel
  rw [Nat.add_comm, run, h]

theorem Leads.trans (h : d.Leads k d') (h' : d'.Leads k' d'') : d.Leads (k + k') d'' := by
  intro length fuel
  rw [Nat.add_assoc, h, h']

/-- When the last reply ends with the input, it is all that is read. -/
theorem run_complete {r : Except Error Reply} (h : d.step = .complete r []) (length fuel : Nat) :
    d.run length (fuel + 1) = ([r], .ok new) := by
  have hrun : run { new with rest := [] } 0 fuel = ([], .ok new) := by
    cases fuel <;> rfl
  simp only [run, h, List.length_nil, hrun]

/-- The kind of a line is told by its first byte. -/
theorem leads_numberLine {kind : UInt8} {k : LineKind} (hkind : lineKind? kind = some k)
    (hdeep : ¬(k = .count ∧ deepest ≤ around.length)) (n : Int) (rest : List UInt8) :
    Leads ⟨around, .kind, numberLine kind n ++ rest⟩ 1
      ⟨around, .line k, bytesOf (toString n) ++ 0x0d :: 0x0a :: rest⟩ := by
  apply leads_of_step
  simp only [numberLine, List.cons_append, List.append_assoc, List.nil_append, step, hkind,
    if_neg hdeep]

/-- A text is read up to the line break behind it. -/
theorem leads_text (around : List OpenArray) {s : String} (h : isSized s = true)
    (rest : List UInt8) :
    Leads ⟨around, .kind, textBytes s ++ rest⟩ 3
      ⟨around, .lineBreak (bytesOf s), 0x0d :: 0x0a :: rest⟩ := by
  have hkind : lineKind? 0x24 = some .length := rfl
  have hline := step_line around .length (bytesOf s).length (bytesOf s ++ 0x0d :: 0x0a :: rest)
  have hbytes : textBytes s ++ rest = numberLine 0x24 (bytesOf s).length ++
      (bytesOf s ++ 0x0d :: 0x0a :: rest) := by
    simp [textBytes]
  rw [hbytes]
  exact ((leads_numberLine hkind (by simp) _ _).trans
    (leads_of_step (hline.trans (takeLine_length (of_decide_eq_true h))))).trans
      (leads_of_step (step_data (bytesOf s)))

variable {size read : Nat} {items : List Reply}

theorem step_last (h : size = read + 1) (s : String) :
    step ⟨[⟨size, read, .ok items⟩], .lineBreak (bytesOf s), 0x0d :: 0x0a :: rest⟩ =
      .complete (.ok (.array (.data s :: items).reverse)) rest := by
  have hlacking : size - (read + 1) = 0 := by omega
  rw [step_lineBreak]
  simp only [place, OpenArray.add, OpenArray.lacking]
  exact if_pos hlacking

theorem step_next (h : read + 1 < size) (s : String) :
    step ⟨[⟨size, read, .ok items⟩], .lineBreak (bytesOf s), 0x0d :: 0x0a :: rest⟩ =
      .further ⟨[⟨size, read + 1, .ok (.data s :: items)⟩], .kind, rest⟩ := by
  have hlacking : ¬size - (read + 1) = 0 := by omega
  rw [step_lineBreak]
  simp only [place, OpenArray.add, OpenArray.lacking]
  exact if_neg hlacking

/-- Inside an array that lacks just these texts they are read one by one, by induction on them. -/
theorem run_texts {s : String} {ss : List String} (h : ∀ t ∈ s :: ss, isSized t = true)
    (hsize : size = read + ss.length + 1) (length fuel : Nat) :
    run ⟨[⟨size, read, .ok items⟩], .kind, (s :: ss).flatMap textBytes⟩ length
        (4 * (ss.length + 1) + fuel) =
      ([.ok (.array (items.reverse ++ (s :: ss).map .data))], .ok new) := by
  have htext := leads_text [⟨size, read, .ok items⟩] (h s List.mem_cons_self)
    (ss.flatMap textBytes)
  rw [List.flatMap_cons]
  induction ss generalizing s read items fuel with
  | nil =>
      have hfuel : 4 * (([] : List String).length + 1) + fuel = 3 + (fuel + 1) := by
        rw [List.length_nil]
        omega
      have hlast : size = read + 1 := hsize
      rw [hfuel, htext, List.flatMap_nil, run_complete (step_last hlast s)]
      simp
  | cons s' ss ih =>
      have hfuel : 4 * ((s' :: ss).length + 1) + fuel = 3 + 1 + (4 * (ss.length + 1) + fuel) := by
        rw [List.length_cons]
        omega
      have hread : read + 1 < size := by
        rw [List.length_cons] at hsize
        omega
      have hsize' : size = read + 1 + ss.length + 1 := by
        rw [List.length_cons] at hsize
        omega
      have h' : ∀ t ∈ s' :: ss, isSized t = true := fun t ht => h t (List.mem_cons_of_mem s ht)
      rw [hfuel, htext.trans (leads_of_step (step_next hread s)), List.flatMap_cons,
        ih h' hsize' _ (leads_text _ (h' s' List.mem_cons_self) _)]
      simp

/-! ### Whole replies -/

theorem feed_new (bytes : List UInt8) :
    new.feed bytes = run ⟨[], .kind, bytes⟩ bytes.length (1 + (2 * bytes.length + 1)) := by
  rw [Nat.add_comm 1]
  rfl

/-- An integer is read as what it was sent as. -/
theorem feed_integer {n : Int} (hlow : -(integerEnd : Int) ≤ n) (hhigh : n < integerEnd) :
    new.feed (integerBytes n) = ([.ok (.integer n)], .ok new) := by
  have hkind : lineKind? 0x3a = some .integer := rfl
  have hline := (step_line [] .integer n []).trans (takeLine_integer hlow hhigh)
  have hdeep : ¬(LineKind.integer = .count ∧ deepest ≤ ([] : List OpenArray).length) := by decide
  have hleads := leads_numberLine hkind hdeep n []
  rw [List.append_nil] at hleads
  rw [feed_new, integerBytes, hleads, run_complete hline]

/-- An error is read as the one that its line tells. -/
theorem feed_error {line : String} (h : (0x0d : UInt8) ∉ bytesOf line) :
    new.feed (errorBytes line) = ([.error (errorOf line)], .ok new) := by
  have hkind : step ⟨[], .kind, errorBytes line⟩ =
      .further ⟨[], .line .failure, bytesOf line ++ [0x0d, 0x0a]⟩ := by
    rfl
  have hline : step ⟨[], .line .failure, bytesOf line ++ [0x0d, 0x0a]⟩ =
      .complete (.error (errorOf line)) [] := by
    simp only [step, splitLine_append h, spelled?_bytesOf, Option.getD_some]
    rfl
  rw [feed_new, leads_of_step hkind, run_complete hline]

theorem length_textBytes (s : String) : 4 ≤ (textBytes s).length := by
  simp only [textBytes, numberLine, List.length_append, List.length_cons, List.length_nil]
  omega

theorem length_flatMap_textBytes (ss : List String) :
    4 * ss.length ≤ (ss.flatMap textBytes).length := by
  induction ss with
  | nil => exact Nat.zero_le _
  | cons s ss ih =>
      have hs := length_textBytes s
      rw [List.flatMap_cons, List.length_append, List.length_cons]
      omega

/-- So is a list of texts. -/
theorem feed_list {ss : List String} (hlength : ss.length < integerEnd)
    (h : ∀ s ∈ ss, isSized s = true) :
    new.feed (listBytes ss) = ([.ok (.array (ss.map .data))], .ok new) := by
  have hkind : lineKind? 0x2a = some .count := rfl
  have hdeep : ¬(LineKind.count = .count ∧ deepest ≤ ([] : List OpenArray).length) := by decide
  have hline := step_line [] .count ss.length (ss.flatMap textBytes)
  rw [feed_new, listBytes, leads_numberLine hkind hdeep]
  cases ss with
  | nil =>
      rw [run_complete (hline.trans takeLine_count_zero)]
      rfl
  | cons s ss =>
      have hlong := length_flatMap_textBytes (s :: ss)
      have hsteps : 1 + 4 * (ss.length + 1) ≤
          2 * (numberLine 0x2a (s :: ss).length ++ (s :: ss).flatMap textBytes).length + 1 := by
        rw [List.length_append]
        rw [List.length_cons] at hlong
        omega
      obtain ⟨fuel, hfuel⟩ := Nat.exists_eq_add_of_le hsteps
      have hcount := hline.trans (takeLine_count_succ hlength)
      rw [hfuel, Nat.add_assoc, leads_of_step hcount, run_texts h (by simp)]
      rfl

end Decoder

/-! ### Answers -/

/-- A call over a new connection that gets a whole reply is answered by it, and the connection is
left as new. -/
theorem Connection.exchange_of_feed {bytes : List UInt8} {r : Except Error Reply}
    (h : Decoder.new.feed bytes = ([r], .ok Decoder.new)) (call : LogCall) :
    Connection.new.exchange call bytes = (⟨[command call], some (answer call r)⟩, .new) := by
  have hfeed : Connection.new.decoder.feed bytes = ([r], .ok Decoder.new) := h
  simp only [exchange, hfeed]
  rfl

/-- The texts of a list reply are the texts it was made of. -/
theorem Reply.asTexts_data (ss : List String) : (Reply.array (ss.map .data)).asTexts = .ok ss := by
  show (ss.map Reply.data).mapM Reply.asText = .ok ss
  induction ss with
  | nil => rfl
  | cons s ss ih =>
      rw [List.map_cons, List.mapM_cons, ih]
      rfl

end ChatServer.Redis
