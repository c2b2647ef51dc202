import Mathlib.Algebra.Ring.Parity
import Mathlib.Tactic.SplitIfs
import ExprTree.Discard.Escape

/-!
# Quoted messages

The quoted form of a message lies on one line, has no quote that could end it early, and reads back
as the message.

* `Escape.backslashes` — the backslashes behind which a quote would stand.
* `Escape.decodeFrom?_encodeChar` — the written form of a character is read as the character.
* `Escape.odd_backslashes` — a quote in a quoted form is escaped.
* `Escape.encode_lossless` — quoting is safe, and loses nothing.
-/

namespace ExprTree

namespace Escape

/-- The number of backslashes at the end of a text. -/
def backslashes (cs : List Char) : Nat := (cs.reverse.takeWhile (· == '\\')).length

variable {c x : Char} {cs before rest : List Char} {n d : Nat}

/-! ### Code points -/

theorem digit?_digitChar (hd : d < 16) : digit? d.digitChar = some d :=
  (by decide : ∀ d : Fin 16, digit? d.val.digitChar = some d.val) ⟨d, hd⟩

/-- No digit is written as an escape, or ends a code point. -/
theorem isEscaped_digitChar (hd : d < 16) :
    isEscaped d.digitChar = false ∧ d.digitChar ≠ '\x7d' :=
  (by decide : ∀ d : Fin 16, isEscaped d.val.digitChar = false ∧ d.val.digitChar ≠ '\x7d') ⟨d, hd⟩

theorem exists_of_mem_toDigits (hc : c ∈ Nat.toDigits 16 n) : ∃ d < 16, c = d.digitChar := by
  induction n using Nat.strongRecOn with
  | ind n ih =>
    rw [Nat.toDigits_eq_if (by decide)] at hc
    split at hc
    · rename_i hn
      exact ⟨n, hn, List.mem_singleton.1 hc⟩
    · rename_i hn
      rcases List.mem_append.1 hc with hc | hc
      · exact ih (n / 16) (Nat.div_lt_self (by omega) (by decide)) hc
      · exact ⟨n % 16, Nat.mod_lt n (by decide), List.mem_singleton.1 hc⟩

theorem decodeFrom?_digitChar (value : Option Nat) (hd : d < 16) :
    decodeFrom? (.digits value) (d.digitChar :: rest) =
      decodeFrom? (.digits (some (16 * value.getD 0 + d))) rest := by
  rw [decodeFrom?, if_neg (isEscaped_digitChar hd).2, digit?_digitChar hd]
  rfl

theorem decodeFrom?_toDigits (n : Nat) (rest : List Char) :
    decodeFrom? (.digits none) (Nat.toDigits 16 n ++ rest) =
      decodeFrom? (.digits (some n)) rest := by
  induction n using Nat.strongRecOn generalizing rest with
  | ind n ih =>
    by_cases hn : n < 16
    · rw [Nat.toDigits_of_lt_base hn, List.singleton_append, decodeFrom?_digitChar none hn]
      simp
    · have hvalue : 16 * (n / 16) + n % 16 = n := Nat.div_add_mod n 16
      rw [Nat.toDigits_of_base_le (by decide) (by omega), List.append_assoc, List.singleton_append,
        ih (n / 16) (Nat.div_lt_self (by omega) (by decide)),
        decodeFrom?_digitChar _ (Nat.mod_lt n (by decide)), Option.getD_some, hvalue]

theorem char?_toNat (c : Char) : char? c.toNat = some c := by
  have hvalid : c.toNat.isValidChar := c.valid
  rw [char?, if_pos hvalid, Char.ofNat_toNat]

/-! ### Reading back -/

/-- The written form of a character is read as the character. -/
theorem decodeFrom?_encodeChar (c : Char) (rest : List Char) :
    decodeFrom? .text (encodeChar c ++ rest) = (decodeFrom? .text rest).map (c :: ·) := by
  unfold encodeChar
  split
  · unfold escape
    split_ifs with hn hr ht hq hb
    · rw [hn]; rfl
    · rw [hr]; rfl
    · rw [ht]; rfl
    · rw [hq]; rfl
    · rw [hb]; rfl
    · -- a code point, whose last digit the closing brace follows
      show decodeFrom? (.digits none) (Nat.toDigits 16 c.toNat ++ ['\x7d'] ++ rest) = _
      rw [List.append_assoc, decodeFrom?_toDigits]
      show ((some c.toNat).bind char?).bind _ = _
      rw [Option.bind_some, char?_toNat]
      rfl
  · rename_i hplain
    have hc : c ≠ '\\' := by
      rintro rfl
      exact hplain rfl
    rw [List.singleton_append, decodeFrom?, if_neg hc]

theorem decodeFrom?_flatMap (cs : List Char) :
    decodeFrom? .text (cs.flatMap encodeChar) = some cs := by
  induction cs with
  | nil => rfl
  | cons c cs ih => rw [List.flatMap_cons, decodeFrom?_encodeChar, ih, Option.map_some]

theorem decode?_encode (message : String) : decode? (encode message) = some message := by
  rw [decode?, encode, String.toList_ofList, decodeFrom?_flatMap, Option.map_some,
    String.ofList_toList]

/-! ### Written forms -/

/-- What escapes are written with, digits and the quote apart. -/
def marks : List Char := ['\\', 'n', 'r', 't', 'u', '\x7b', '\x7d']

/-- The characters of an escape. -/
theorem mem_escape (hc : c ∈ escape x) :
    c ∈ marks ∨ c = '"' ∧ x = '"' ∨ ∃ d < 16, c = d.digitChar := by
  have mark : ∀ {cs : List Char}, (∀ c ∈ cs, c ∈ marks) → c ∈ cs →
      c ∈ marks ∨ c = '"' ∧ x = '"' ∨ ∃ d < 16, c = d.digitChar := fun h hc => .inl (h c hc)
  unfold escape at hc
  split_ifs at hc with hn hr ht hq hb
  · exact mark (by simp [marks]) hc
  · exact mark (by simp [marks]) hc
  · exact mark (by simp [marks]) hc
  · cases hc with
    | head => exact .inl (by decide)
    | tail _ hc => exact .inr (.inl ⟨List.mem_singleton.1 hc, hq⟩)
  · exact mark (by simp [marks]) hc
  · rcases List.mem_append.1 hc with hc | hc
    · rcases List.mem_append.1 hc with hc | hc
      · exact mark (by simp [marks]) hc
      · exact .inr (.inr (exists_of_mem_toDigits hc))
    · exact mark (by simp [marks]) hc

theorem isControl_of_mem_encodeChar (hc : c ∈ encodeChar x) : isControl c = false := by
  have hplain : ∀ {y : Char}, isEscaped y = false → isControl y = false := by
    intro y hy
    simp only [isEscaped, Bool.or_eq_false_iff] at hy
    exact hy.1.1
  unfold encodeChar at hc
  split at hc
  · rcases mem_escape hc with hc | ⟨rfl, -⟩ | ⟨d, hd, rfl⟩
    · have hmarks : marks.all (!isControl ·) = true := by decide
      simpa using List.all_eq_true.1 hmarks c hc
    · decide
    · exact hplain (isEscaped_digitChar hd).1
  · rename_i hx
    rw [List.mem_singleton.1 hc]
    exact hplain (Bool.eq_false_iff.2 hx)

/-- Only the written form of a quote has a quote, and that is escaped. -/
theorem eq_of_encodeChar_eq (h : encodeChar x = before ++ '"' :: rest) : before = ['\\'] := by
  have hx : x = '"' := by
    have hmem : '"' ∈ encodeChar x := by simp [h]
    unfold encodeChar at hmem
    split at hmem
    · rcases mem_escape hmem with hc | ⟨-, hx⟩ | ⟨d, hd, hc⟩
      · exact absurd hc (by decide)
      · exact hx
      · have hdigit := (isEscaped_digitChar hd).1
        rw [← hc] at hdigit
        cases hdigit
    · exact (List.mem_singleton.1 hmem).symm
  subst hx
  have hform : ['\\', '"'] = before ++ '"' :: rest := h
  rcases List.cons_eq_append_iff.1 hform with ⟨rfl, hrest⟩ | ⟨tail, rfl, htail⟩
  · cases hrest
  · rcases List.cons_eq_append_iff.1 htail with ⟨rfl, -⟩ | ⟨_, rfl, hnil⟩
    · rfl
    · simp at hnil

/-! ### Backslashes -/

theorem backslashes_concat (cs : List Char) (hc : c ≠ '\\') : backslashes (cs ++ [c]) = 0 := by
  simp [backslashes, hc]

/-- An even number of backslashes before a text does not count. -/
theorem even_backslashes_append (h : Even (backslashes before)) (cs : List Char) :
    Even (backslashes (before ++ cs)) ↔ Even (backslashes cs) := by
  unfold backslashes at h ⊢
  rw [List.reverse_append, List.takeWhile_append]
  split
  · rename_i hall
    rw [List.length_append, Nat.even_add, hall]
    exact iff_true_right h
  · rfl

theorem even_backslashes_encodeChar (c : Char) : Even (backslashes (encodeChar c)) := by
  unfold encodeChar
  split
  · unfold escape
    split_ifs
    · decide
    · decide
    · decide
    · decide
    · decide
    · rw [backslashes_concat _ (by decide)]
      exact Even.zero
  · rename_i hc
    have hne : c ≠ '\\' := by
      rintro rfl
      exact hc rfl
    rw [← List.nil_append [c], backslashes_concat _ hne]
    exact Even.zero

theorem even_backslashes_flatMap (cs : List Char) :
    Even (backslashes (cs.flatMap encodeChar)) := by
  induction cs with
  | nil => exact Even.zero
  | cons c cs ih =>
    rw [List.flatMap_cons, even_backslashes_append (even_backslashes_encodeChar c)]
    exact ih

/-- A quote in a quoted form is escaped. -/
theorem odd_backslashes (h : cs.flatMap encodeChar = before ++ '"' :: rest) :
    Odd (backslashes before) := by
  induction cs generalizing before with
  | nil => simp at h
  | cons c cs ih =>
    rw [List.flatMap_cons] at h
    rcases List.append_eq_append_iff.1 h with ⟨inner, rfl, hinner⟩ | ⟨inner, hc, hinner⟩
    · -- the quote is behind the written form of the first character
      rw [← Nat.not_even_iff_odd, even_backslashes_append (even_backslashes_encodeChar c),
        Nat.not_even_iff_odd]
      exact ih hinner
    · cases inner with
      | nil =>
        have hodd : Odd (backslashes []) := ih hinner.symm
        exact absurd hodd (by decide)
      | cons quote inner =>
        cases (List.cons.inj hinner).1
        rw [eq_of_encodeChar_eq hc]
        decide

/-! ### Plain messages -/

theorem two_le_length_escape (c : Char) : 2 ≤ (escape c).length := by
  unfold escape
  split_ifs <;> simp

theorem length_le_flatMap (cs : List Char) : cs.length ≤ (cs.flatMap encodeChar).length := by
  induction cs with
  | nil => exact Nat.le_refl _
  | cons c cs ih =>
    have hc : 1 ≤ (encodeChar c).length := by
      unfold encodeChar
      split
      · exact Nat.le_of_succ_le (two_le_length_escape c)
      · exact Nat.le_refl _
    rw [List.flatMap_cons, List.length_append, List.length_cons]
    omega

/-- A message is its own quoted form exactly if no character is escaped. -/
theorem flatMap_encodeChar_eq_iff :
    cs.flatMap encodeChar = cs ↔ ∀ c ∈ cs, isEscaped c = false := by
  induction cs with
  | nil => simp
  | cons c cs ih =>
    rw [List.flatMap_cons, List.forall_mem_cons, ← ih]
    by_cases hc : isEscaped c = true
    · refine iff_of_false (fun h => ?_) fun h => Bool.false_ne_true (h.1.symm.trans hc)
      have hlength := congrArg List.length h
      have htwo := two_le_length_escape c
      have hrest := length_le_flatMap cs
      rw [encodeChar, if_pos hc, List.length_append, List.length_cons] at hlength
      omega
    · rw [encodeChar, if_neg hc, List.singleton_append, List.cons.injEq]
      exact ⟨fun h => ⟨Bool.eq_false_iff.2 hc, h.2⟩, fun h => ⟨rfl, h.2⟩⟩

theorem isEscaped_eq_false_iff :
    isEscaped c = false ↔ isControl c = false ∧ c ≠ '"' ∧ c ≠ '\\' := by
  simp only [isEscaped, Bool.or_eq_false_iff, beq_eq_false_iff_ne, and_assoc]

theorem encode_eq_iff {message : String} : encode message = message ↔
    ∀ c ∈ message.toList, isControl c = false ∧ c ≠ '"' ∧ c ≠ '\\' := by
  simp only [← isEscaped_eq_false_iff]
  rw [← flatMap_encodeChar_eq_iff, ← String.toList_inj, encode, String.toList_ofList]

theorem toList_encode (message : String) :
    (encode message).toList = message.toList.flatMap encodeChar := String.toList_ofList

/-- The quoted form of a message has no control character, and no quote but behind an odd number of
backslashes; nor does it end in such a number, which would escape the quote behind it.  It reads
back as the message, so that different messages have different forms; and exactly the messages
without control characters, quotes and backslashes are their own forms. -/
theorem encode_lossless :
    (∀ message : String, (∀ c ∈ (encode message).toList, isControl c = false) ∧
      (∀ before rest, (encode message).toList = before ++ '"' :: rest → Odd (backslashes before)) ∧
      Even (backslashes (encode message).toList) ∧
      decode? (encode message) = some message ∧
      (encode message = message ↔
        ∀ c ∈ message.toList, isControl c = false ∧ c ≠ '"' ∧ c ≠ '\\')) ∧
    Function.Injective encode := by
  refine ⟨fun message => ⟨fun c hc => ?_, fun before rest h => ?_, ?_, decode?_encode message,
    encode_eq_iff⟩, fun message message' h => ?_⟩
  · rw [toList_encode] at hc
    obtain ⟨x, -, hx⟩ := List.mem_flatMap.1 hc
    exact isControl_of_mem_encodeChar hx
  · rw [toList_encode] at h
    exact odd_backslashes h
  · rw [toList_encode]
    exact even_backslashes_flatMap _
  · refine Option.some.inj ?_
    rw [← decode?_encode, h, decode?_encode]

/-- A quote, a backslash and a control character that has no letter. -/
theorem encode_lossless_nextLine :
    encode "\"\\\x85" = "\\\"\\\\\\u\x7b85\x7d" ∧ Odd (backslashes ['\\']) :=
  ⟨by decide +kernel, (encode_lossless.1 "\"\\\x85").2.1 ['\\']
    ['\\', '\\', '\\', 'u', '\x7b', '8', '5', '\x7d'] (by decide +kernel)⟩

end Escape

end ExprTree
