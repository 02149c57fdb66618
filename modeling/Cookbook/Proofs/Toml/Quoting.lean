import Cookbook.Toml.Reader
import Mathlib.Tactic.SplitIfs

/-!
Texts written as basic strings, alone and in arrays, and read back.
-/

namespace Cookbook.Toml

/-! ## Strings -/

def isControl (c : Char) : Bool := c.toNat < 0x20 || (0x7F ≤ c.toNat && c.toNat < 0xA0)

def escapedChar (c : Char) : List Char :=
  if c = '"' then ['\\', '"']
  else if c = '\\' then ['\\', '\\']
  else if c = '\x08' then ['\\', 'b']
  else if c = '\t' then ['\\', 't']
  else if c = '\n' then ['\\', 'n']
  else if c = '\x0c' then ['\\', 'f']
  else if c = '\r' then ['\\', 'r']
  else if isControl c then
    ['\\', 'u', '0', '0', Nat.digitChar (c.toNat / 16), Nat.digitChar (c.toNat % 16)]
  else [c]

/-- A text as a basic string, in which quotes, backslashes and control characters are escaped. -/
def quoted (text : String) : List Char := '"' :: text.toList.flatMap escapedChar ++ ['"']

theorem hexValue?_digitChar : ∀ n < 16, hexValue? (Nat.digitChar n) = some n := by decide

theorem unicode?_control {c : Char} (control : isControl c = true) (rest : List Char) :
    unicode? 4 ('0' :: '0' :: Nat.digitChar (c.toNat / 16) :: Nat.digitChar (c.toNat % 16) :: rest) =
      some (c, rest) := by
  have small : c.toNat < 0xA0 := by
    simp only [isControl, Bool.or_eq_true, Bool.and_eq_true, decide_eq_true_eq] at control
    omega
  have high := hexValue?_digitChar (c.toNat / 16) (by omega)
  have low := hexValue?_digitChar (c.toNat % 16) (Nat.mod_lt _ (by decide))
  have zero : hexValue? '0' = some 0 := by decide
  have code : c.toNat / 16 * 16 + c.toNat % 16 = c.toNat := Nat.div_add_mod' _ _
  let digits := ['0', '0', Nat.digitChar (c.toNat / 16), Nat.digitChar (c.toNat % 16)]
  have spelled : (digits.foldlM (fun code c => do return code * 16 + (← hexValue? c)) 0 : Option Nat) =
      some c.toNat := by
    simp [digits, high, low, zero, code]
  refine Option.bind_eq_some_iff.mpr ⟨c.toNat, spelled, ?_⟩
  refine Option.bind_eq_some_iff.mpr ⟨(), if_pos c.valid, ?_⟩
  rw [Char.ofNat_toNat]
  rfl

theorem basicText_escape {c : Char} {fuel : Nat} {cs rest : List Char}
    (named : escape? cs = some (c, rest)) :
    basicText (fuel + 1) ('\\' :: cs) = put c (basicText fuel rest) := by
  simp [basicText, named]

theorem basicText_escapedChar (c : Char) (fuel : Nat) (rest : List Char) :
    basicText (fuel + 1) (escapedChar c ++ rest) = put c (basicText fuel rest) := by
  unfold escapedChar
  split_ifs with quote backslash backspace tab feed page return_ control
  · exact basicText_escape (by rw [quote]; rfl)
  · exact basicText_escape (by rw [backslash]; rfl)
  · exact basicText_escape (by rw [backspace]; rfl)
  · exact basicText_escape (by rw [tab]; rfl)
  · exact basicText_escape (by rw [feed]; rfl)
  · exact basicText_escape (by rw [page]; rfl)
  · exact basicText_escape (by rw [return_]; rfl)
  · exact basicText_escape (unicode?_control control rest)
  · have plain : isPlain c = true := by
      simp only [isControl, Bool.or_eq_true, Bool.and_eq_true, decide_eq_true_eq] at control
      simp only [isPlain, Bool.or_eq_true, Bool.and_eq_true, decide_eq_true_eq]
      omega
    simp [basicText, quote, backslash, plain]

theorem basicText_quoted (text rest : List Char) {fuel : Nat}
    (enough : (text.flatMap escapedChar).length < fuel) :
    basicText fuel (text.flatMap escapedChar ++ '"' :: rest) = .ok (text, rest) := by
  induction text generalizing fuel with
  | nil =>
      obtain ⟨fuel, rfl⟩ := Nat.exists_eq_add_of_lt enough
      simp [basicText]
  | cons c text ih =>
      have longer : 0 < (escapedChar c).length := by
        unfold escapedChar
        split_ifs <;> simp
      rw [List.flatMap_cons, List.length_append] at enough
      obtain ⟨fuel, rfl⟩ : ∃ less, fuel = less + 1 := ⟨fuel - 1, by omega⟩
      rw [List.flatMap_cons, List.append_assoc, basicText_escapedChar, ih (by omega)]
      rfl

theorem string?_quote {cs : List Char} (short : ∀ more, cs ≠ '"' :: '"' :: more) :
    string? ('"' :: cs) = some (string (basicText (cs.length + 1) cs)) := by
  unfold string?
  split
  · next more same => exact absurd (List.cons.inj same).2 (short more)
  · next same => exact absurd (List.cons.inj same).1 (by decide)
  · rfl

theorem head?_escapedChar (c : Char) (rest : List Char) : (escapedChar c ++ rest).head? ≠ some '"' := by
  unfold escapedChar
  split_ifs <;> simp_all

theorem value_quoted (depth : Nat) (text : String) (rest : List Char) (stop : rest.head? ≠ some '"') :
    value depth (quoted text ++ rest) = .ok (.string text, rest) := by
  have read : basicText ((text.toList.flatMap escapedChar ++ '"' :: rest).length + 1)
      (text.toList.flatMap escapedChar ++ '"' :: rest) = .ok (text.toList, rest) :=
    basicText_quoted text.toList rest (by rw [List.length_append]; omega)
  have short (more : List Char) :
      text.toList.flatMap escapedChar ++ '"' :: rest ≠ '"' :: '"' :: more := by
    intro same
    cases chars : text.toList with
    | nil =>
        rw [chars] at same
        exact stop (by rw [(List.cons.inj same).2]; rfl)
    | cons c cs =>
        rw [chars, List.flatMap_cons, List.append_assoc] at same
        exact head?_escapedChar c _ (by rw [same]; rfl)
  have opened : quoted text ++ rest = '"' :: (text.toList.flatMap escapedChar ++ '"' :: rest) := by
    simp [quoted]
  rw [opened]
  rw [value, string?_quote short, read]
  · simp [string, Except.map]
  · simp
  · simp

/-! ## Arrays -/

/-- The texts of an array up to and with its closing bracket. -/
def items : List String → List Char
  | [] => [']']
  | [text] => quoted text ++ [']']
  | text :: texts => quoted text ++ ',' :: ' ' :: items texts

def array (texts : List String) : List Char := '[' :: items texts

theorem skipSpaces_quote (cs : List Char) :
    skipSpaces ('"' :: cs) = '"' :: cs ∧ skipSpaces (' ' :: '"' :: cs) = '"' :: cs :=
  ⟨rfl, rfl⟩

theorem quoted_append (text : String) (rest : List Char) :
    ∃ cs, quoted text ++ rest = '"' :: cs :=
  ⟨_, rfl⟩

theorem items_append {texts : List String} (nonempty : texts ≠ []) (rest : List Char) :
    ∃ cs, items texts ++ rest = '"' :: cs := by
  cases texts with
  | nil => exact absurd rfl nonempty
  | cons text texts => cases texts <;> exact ⟨_, rfl⟩

theorem length_le_items (texts : List String) : texts.length ≤ (items texts).length := by
  induction texts using items.induct with
  | case1 => simp
  | case2 text => simp [items]
  | case3 text texts more ih =>
      simp only [items, List.length_append, List.length_cons]
      omega

variable {depth fuel : Nat} {text : String} {cs rest after : List Char} {values : List Value}

theorem arrayItems_last (shown : skipSpaces cs = quoted text ++ ']' :: rest) :
    arrayItems (value depth) (fuel + 1) cs = .ok ([.string text], rest) := by
  have read := value_quoted depth text (']' :: rest) (by simp)
  have closed : skipSpaces (']' :: rest) = ']' :: rest := rfl
  obtain ⟨tail, opened⟩ := quoted_append text (']' :: rest)
  rw [opened] at shown read
  simp [arrayItems, shown, read, closed, bind, Except.bind, pure, Except.pure]

theorem arrayItems_more (shown : skipSpaces cs = quoted text ++ ',' :: rest)
    (more : arrayItems (value depth) fuel rest = .ok (values, after)) :
    arrayItems (value depth) (fuel + 1) cs = .ok (.string text :: values, after) := by
  have read := value_quoted depth text (',' :: rest) (by simp)
  have parted : skipSpaces (',' :: rest) = ',' :: rest := rfl
  obtain ⟨tail, opened⟩ := quoted_append text (',' :: rest)
  rw [opened] at shown read
  simp [arrayItems, shown, read, parted, more, bind, Except.bind, pure, Except.pure]

theorem arrayItems_items (texts : List String) (enough : texts.length < fuel)
    (shown : skipSpaces cs = items texts ++ rest) :
    arrayItems (value depth) fuel cs = .ok (texts.map .string, rest) := by
  obtain ⟨fuel, rfl⟩ : ∃ less, fuel = less + 1 := ⟨fuel - 1, by omega⟩
  induction texts using items.induct generalizing fuel cs with
  | case1 =>
      have closed : skipSpaces cs = ']' :: rest := shown
      rw [arrayItems, closed]
      rfl
  | case2 text =>
      rw [items, List.append_assoc] at shown
      exact arrayItems_last shown
  | case3 text texts more ih =>
      obtain ⟨fuel, rfl⟩ : ∃ less, fuel = less + 1 := ⟨fuel - 1, by simp at enough; omega⟩
      obtain ⟨tail, opened⟩ := items_append more rest
      simp only [items, List.append_assoc, List.cons_append] at shown
      refine arrayItems_more shown (ih ?_ fuel (by simpa using enough))
      rw [opened]
      exact (skipSpaces_quote tail).2

theorem value_array (depth : Nat) (texts : List String) (rest : List Char) :
    value (depth + 1) (array texts ++ rest) = .ok (.array false (texts.map .string), rest) := by
  have shown : skipSpaces (items texts ++ rest) = items texts ++ rest := by
    cases texts with
    | nil => rfl
    | cons text texts =>
        obtain ⟨tail, opened⟩ := items_append (List.cons_ne_nil text texts) rest
        rw [opened]
        exact (skipSpaces_quote tail).1
  have enough := length_le_items texts
  have read : arrayItems (value depth) ((items texts ++ rest).length + 1) (items texts ++ rest) =
      .ok (texts.map .string, rest) := by
    refine arrayItems_items texts ?_ shown
    rw [List.length_append]
    omega
  rw [array, List.cons_append, value, read]
  rfl

end Cookbook.Toml
