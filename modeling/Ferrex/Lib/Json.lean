import Mathlib.Data.List.Sort
import Mathlib.Data.String.Basic
import Ferrex.Lib.Table

/-
  JSON values, and the compact text that they are written as.
  The text of a value is read back in one way only, whatever
  follows it, and an object does not depend on the order that
  its fields are given in.

  Main declarations:
    * `JsonNumber`, `Json`
    * `Json.quote`, `Json.print`
    * `Json.ReadsBack`, `Json.readsBack_print`
    * `Json.eq_of_print_append`, `Json.le_of_mem_print`
    * `Json.object`, `Json.object_eq_iff`
    * `Json.optional`
-/

------------------------------------------------------------
-- Values
------------------------------------------------------------

/- The characters of a number. -/
def Json.numeral (c : Char) : Bool :=
  c.isDigit || c = '-' || c = '+' || c = '.' || c = 'e'

/- A number as it is written: a text of numerals. -/
structure JsonNumber where
  text : List Char
  nonempty : text ≠ []
  numerals : ∀ c ∈ text, Json.numeral c = true

/- A value of JSON, with the fields of objects in order. -/
inductive Json where
| null
| bool (b : Bool)
| num (n : JsonNumber)
| str (s : String)
| arr (items : List Json)
| obj (fields : List (String × Json))

namespace JsonNumber

/- Numbers with one text are one number. -/
theorem ext
    {m n : JsonNumber}
    (h : m.text = n.text) : m = n := by
  cases m
  cases n
  cases h
  rfl

/- A natural number in decimal digits. -/
def ofNat (n : Nat) : JsonNumber where
  text := Nat.toDigits 10 n
  nonempty := Nat.toDigits_ne_nil
  numerals := by
    intro c hc
    have hDigit : c.isDigit = true :=
      Nat.isDigit_of_mem_toDigits (by decide) (by decide) hc
    simp [Json.numeral, hDigit]

/- The digits tell the number. -/
theorem toDigits_inj
    {m n : Nat}
    (h : Nat.toDigits 10 m = Nat.toDigits 10 n) : m = n := by
  have hBack := congrArg (Nat.ofDigitChars 10 · 0) h
  simpa only [Nat.ofDigitChars_ten_toDigits] using hBack

/- The text tells the number. -/
theorem ofNat_inj
    {m n : Nat}
    (h : ofNat m = ofNat n) : m = n :=
  toDigits_inj (congrArg text h)

end JsonNumber

namespace Json

/- A value holds what its items or its fields hold. -/
theorem induction
    {P : Json → Prop}
    (null : P .null)
    (bool : ∀ b, P (.bool b))
    (num : ∀ n, P (.num n))
    (str : ∀ s, P (.str s))
    (arr : ∀ items, (∀ x ∈ items, P x) → P (.arr items))
    (obj : ∀ fields, (∀ field ∈ fields, P field.2) →
      P (.obj fields)) :
    ∀ value, P value
| .null => null
| .bool b => bool b
| .num n => num n
| .str s => str s
| .arr items =>
    arr items (fun x _ => induction null bool num str arr obj x)
| .obj fields =>
    obj fields (fun field _ =>
      induction null bool num str arr obj field.2)
termination_by value => sizeOf value
decreasing_by
  · have hSmaller := List.sizeOf_lt_of_mem ‹x ∈ items›
    simp only [Json.arr.sizeOf_spec]
    omega
  · have hSmaller := List.sizeOf_lt_of_mem ‹field ∈ fields›
    rcases field with ⟨key, value⟩
    simp only [Prod.mk.sizeOf_spec] at hSmaller
    simp only [Json.obj.sizeOf_spec]
    omega

------------------------------------------------------------
-- Strings
------------------------------------------------------------

/- The character that a string is written between. -/
def quotation : Char := Char.ofNat 34

def backslash : Char := Char.ofNat 92

/- The value of a hexadecimal digit in lower case. -/
def hexVal (c : Char) : Nat :=
  if c.toNat < 58 then c.toNat - 48 else c.toNat - 87

/- The letter of a control character that has one. -/
def controlLetter (c : Char) : Option Char :=
  if c = Char.ofNat 8 then some 'b'
  else if c = Char.ofNat 9 then some 't'
  else if c = Char.ofNat 10 then some 'n'
  else if c = Char.ofNat 12 then some 'f'
  else if c = Char.ofNat 13 then some 'r'
  else none

/- A character as it stands in a string. -/
def escape (c : Char) : List Char :=
  if c = quotation ∨ c = backslash then
    [backslash, c]
  else
    match controlLetter c with
    | some letter => [backslash, letter]
    | none =>
        if c.toNat < 32 then
          [backslash, 'u', '0', '0',
            Nat.digitChar (c.toNat / 16),
            Nat.digitChar (c.toNat % 16)]
        else
          [c]

/- A string between quotation marks. -/
def quote (s : String) : List Char :=
  quotation :: (s.toList.flatMap escape ++ [quotation])

/- The character that an escape letter stands for. -/
def letterControl (c : Char) : Char :=
  if c = 'b' then Char.ofNat 8
  else if c = 't' then Char.ofNat 9
  else if c = 'n' then Char.ofNat 10
  else if c = 'f' then Char.ofNat 12
  else if c = 'r' then Char.ofNat 13
  else c

/- Reads back one character of a string. -/
def unescape : List Char → Option (Char × List Char)
| [] => none
| c :: rest =>
    if c = quotation then
      none
    else if c = backslash then
      match rest with
      | [] => none
      | e :: rest =>
          if e = 'u' then
            match rest with
            | _ :: _ :: h :: l :: rest =>
                some (Char.ofNat (hexVal h * 16 + hexVal l),
                  rest)
            | _ => none
          else
            some (letterControl e, rest)
    else
      some (c, rest)

/- Each of the sixteen digits is read as it is written. -/
theorem hexVal_digitChar :
    ∀ n < 16, hexVal (Nat.digitChar n) = n := by
  decide

/- The short escapes are read as they are written. -/
theorem letterControl_controlLetter
    {c letter : Char}
    (h : controlLetter c = some letter) :
    letter ≠ 'u' ∧ letterControl letter = c := by
  unfold controlLetter at h
  split_ifs at h with hc hc hc hc hc
  all_goals
    cases h
    rw [hc]
    decide

/-
  An escaped character is read back, whatever comes next.
-/
theorem unescape_escape
    (c : Char)
    (rest : List Char) :
    unescape (escape c ++ rest) = some (c, rest) := by
  have hMark : backslash ≠ quotation := by decide
  unfold escape
  split
  · rename_i hWhich
    rcases hWhich with rfl | rfl <;> rfl
  · rename_i hPlain
    rw [not_or] at hPlain
    cases hLetter : controlLetter c with
    | some letter =>
        rcases letterControl_controlLetter hLetter with
          ⟨hNot, hBack⟩
        simp [unescape, hMark, hNot, hBack]
    | none =>
        dsimp only
        split
        · rename_i hControl
          have hHigh := hexVal_digitChar (c.toNat / 16) (by omega)
          have hLow := hexVal_digitChar (c.toNat % 16) (by omega)
          have hWhole :
              c.toNat / 16 * 16 + c.toNat % 16 = c.toNat := by
            omega
          simp [unescape, hMark, hHigh, hLow, hWhole]
        · simp [unescape, hPlain]

/- A string ends with the first quotation mark in its text. -/
theorem escapes_inj
    {cs ds : List Char}
    {r r' : List Char}
    (h :
      cs.flatMap escape ++ quotation :: r =
        ds.flatMap escape ++ quotation :: r') :
    cs = ds ∧ r = r' := by
  have hEnd : ∀ r, unescape (quotation :: r) = none :=
    fun r => rfl
  induction cs generalizing ds with
  | nil =>
      cases ds with
      | nil => exact ⟨rfl, (List.cons.inj h).2⟩
      | cons d ds =>
          have hRead := congrArg unescape h
          rw [List.flatMap_cons, List.append_assoc,
            unescape_escape, List.flatMap_nil, List.nil_append,
            hEnd] at hRead
          cases hRead
  | cons c cs ih =>
      have hRead := congrArg unescape h
      rw [List.flatMap_cons, List.append_assoc,
        unescape_escape] at hRead
      cases ds with
      | nil =>
          rw [List.flatMap_nil, List.nil_append, hEnd] at hRead
          cases hRead
      | cons d ds =>
          rw [List.flatMap_cons, List.append_assoc,
            unescape_escape] at hRead
          obtain ⟨hHead, hTail⟩ :=
            Prod.mk.inj (Option.some.inj hRead)
          rcases ih hTail with ⟨hRest, hFollows⟩
          exact ⟨by rw [hHead, hRest], hFollows⟩

/- A string ends where it does, and has one reading. -/
theorem quote_inj
    {s s' : String} {r r' : List Char}
    (h : quote s ++ r = quote s' ++ r') :
    s = s' ∧ r = r' := by
  unfold quote at h
  simp only [List.cons_append, List.append_assoc,
    List.nil_append] at h
  rcases escapes_inj (List.cons.inj h).2 with ⟨hText, hRest⟩
  exact ⟨String.toList_inj.mp hText, hRest⟩

------------------------------------------------------------
-- The Text of a Value
------------------------------------------------------------

/- What stands between two texts, or after the last one. -/
def after (texts : List (List Char)) : List Char :=
  texts.flatMap (fun text => ',' :: text)

/- Texts with commas between them. -/
def joined : List (List Char) → List Char
| [] => []
| text :: texts => text ++ after texts

mutual

/- A value as the serializer writes it, without blanks. -/
def print : Json → List Char
| .null => ['n', 'u', 'l', 'l']
| .bool true => ['t', 'r', 'u', 'e']
| .bool false => ['f', 'a', 'l', 's', 'e']
| .num n => n.text
| .str s => quote s
| .arr items => '[' :: (joined (printItems items) ++ [']'])
| .obj fields => '{' :: (joined (printFields fields) ++ ['}'])

/- The items of an array, one by one. -/
def printItems : List Json → List (List Char)
| [] => []
| item :: items => print item :: printItems items

/- The fields of an object, one by one. -/
def printFields : List (String × Json) → List (List Char)
| [] => []
| field :: fields => printField field :: printFields fields

/- A key in quotation marks, and its value. -/
def printField : String × Json → List Char
| (key, value) => quote key ++ ':' :: print value

end

------------------------------------------------------------
-- Reading a Text Back
------------------------------------------------------------

section Runs

variable {α : Type}
variable {p : α → Bool}

/- What follows does not go on with such elements. -/
def Ends (p : α → Bool) (rest : List α) : Prop :=
  ∀ c tail, rest = c :: tail → p c = false

/- A run ends before a character that is none of its own. -/
theorem ends_cons
    {c : α} {rest : List α}
    (h : p c = false) :
    Ends p (c :: rest) := by
  intro d tail hEq
  cases hEq
  exact h

/- The longest run of such elements is read back. -/
theorem run_inj
    {a b r r' : List α}
    (ha : ∀ c ∈ a, p c = true)
    (hb : ∀ c ∈ b, p c = true)
    (hr : Ends p r)
    (hr' : Ends p r')
    (h : a ++ r = b ++ r') :
    a = b ∧ r = r' := by
  induction a generalizing b with
  | nil =>
      cases b with
      | nil => exact ⟨rfl, h⟩
      | cons d b =>
          have hNot := hr d (b ++ r') h
          rw [hb d List.mem_cons_self] at hNot
          cases hNot
  | cons c a ih =>
      cases b with
      | nil =>
          have hNot := hr' c (a ++ r) h.symm
          rw [ha c List.mem_cons_self] at hNot
          cases hNot
      | cons d b =>
          obtain ⟨hHead, hTail⟩ := List.cons.inj h
          rcases ih
            (fun e he => ha e (List.mem_cons_of_mem _ he))
            (fun e he => hb e (List.mem_cons_of_mem _ he))
            hTail with ⟨hRest, hFollows⟩
          exact ⟨by rw [hHead, hRest], hFollows⟩

end Runs

/- The kinds of values, and the kind that a text begins. -/
def kind : Json → Nat
| .null => 0
| .bool _ => 1
| .num _ => 2
| .str _ => 3
| .arr _ => 4
| .obj _ => 5

/- What a first character says of the kind of a value. -/
def kindOf (c : Char) : Nat :=
  if numeral c then 2
  else if c = 'n' then 0
  else if c = 't' ∨ c = 'f' then 1
  else if c = quotation then 3
  else if c = '[' then 4
  else if c = '{' then 5
  else 6

/-
  Every value is written with a first character of its kind.
-/
theorem exists_start
    (value : Json)
    (rest : List Char) :
    ∃ c tail, value.print ++ rest = c :: tail ∧
      kindOf c = value.kind := by
  cases value with
  | null => exact ⟨_, _, rfl, by decide⟩
  | bool b =>
      cases b with
      | true => exact ⟨_, _, rfl, by decide⟩
      | false => exact ⟨_, _, rfl, by decide⟩
  | num n =>
      rcases List.exists_cons_of_ne_nil n.nonempty with
        ⟨c, tail, hText⟩
      refine ⟨c, tail ++ rest, ?_, ?_⟩
      · rw [print, hText, List.cons_append]
      · have hNumeral := n.numerals c (by
          rw [hText]
          exact List.mem_cons_self)
        unfold kindOf
        rw [if_pos hNumeral]
        rfl
  | str s => exact ⟨_, _, rfl, rfl⟩
  | arr items => exact ⟨_, _, rfl, rfl⟩
  | obj fields => exact ⟨_, _, rfl, rfl⟩

/- Texts that begin alike are of one kind. -/
theorem kind_eq
    {x y : Json} {r r' : List Char}
    (h : x.print ++ r = y.print ++ r') :
    x.kind = y.kind := by
  rcases exists_start x r with ⟨c, tail, hx, hKind⟩
  rcases exists_start y r' with ⟨d, tail', hy, hKind'⟩
  rw [hx, hy] at h
  rw [← hKind, ← hKind', (List.cons.inj h).1]

/- The text of a value does not begin with such a character. -/
theorem start_ne
    {c : Char} {value : Json} {r r' : List Char}
    (hc : kindOf c = 6) :
    c :: r ≠ value.print ++ r' := by
  intro h
  rcases exists_start value r' with ⟨d, tail, hd, hKind⟩
  rw [hd] at h
  rw [← (List.cons.inj h).1, hc] at hKind
  cases value <;> cases hKind

/- A field does not begin with the end of an object. -/
theorem field_start_ne
    {field : String × Json} {r r' : List Char} :
    '}' :: r ≠ printField field ++ r' := by
  intro h
  rw [printField, quote, List.append_assoc] at h
  have hHead : '}' = quotation := (List.cons.inj h).1
  revert hHead
  decide

/- No numeral comes after a value. -/
theorem ends_after
    {close : Char} {texts : List (List Char)} {r : List Char}
    (hClose : numeral close = false) :
    Ends numeral (after texts ++ close :: r) := by
  cases texts with
  | nil => exact ends_cons hClose
  | cons text texts => exact ends_cons (by decide)

section Lists

variable {α : Type}
variable {one : α → List Char} {close : Char}
variable {xs ys : List α} {r r' : List Char}

/- A text of `one` is read back in one way. -/
def ReadsBack (one : α → List Char) (x : α) : Prop :=
  ∀ y r r', Ends numeral r → Ends numeral r' →
    one x ++ r = one y ++ r' → x = y ∧ r = r'

/- The rest of a list is read back, item by item. -/
theorem after_inj
    (hClose : numeral close = false)
    (hComma : close ≠ ',')
    (hOne : ∀ x ∈ xs, ReadsBack one x)
    (h :
      after (xs.map one) ++ close :: r =
        after (ys.map one) ++ close :: r') :
    xs = ys ∧ r = r' := by
  induction xs generalizing ys with
  | nil =>
      cases ys with
      | nil => exact ⟨rfl, (List.cons.inj h).2⟩
      | cons y ys => exact absurd (List.cons.inj h).1 hComma
  | cons x xs ih =>
      cases ys with
      | nil => exact absurd (List.cons.inj h).1.symm hComma
      | cons y ys =>
          simp only [List.map_cons, after, List.flatMap_cons,
            List.cons_append, List.append_assoc,
            List.cons.injEq, true_and] at h
          rcases hOne x List.mem_cons_self y _ _
            (ends_after hClose) (ends_after hClose) h with
            ⟨hItem, hRest⟩
          rcases ih (fun z hz => hOne z (List.mem_cons_of_mem _ hz))
            hRest with ⟨hItems, hFollows⟩
          exact ⟨by rw [hItem, hItems], hFollows⟩

/- A list ends with the first bracket that closes it. -/
theorem joined_inj
    (hClose : numeral close = false)
    (hComma : close ≠ ',')
    (hStart : ∀ y r r', close :: r ≠ one y ++ r')
    (hOne : ∀ x ∈ xs, ReadsBack one x)
    (h :
      joined (xs.map one) ++ close :: r =
        joined (ys.map one) ++ close :: r') :
    xs = ys ∧ r = r' := by
  cases xs with
  | nil =>
      cases ys with
      | nil => exact ⟨rfl, (List.cons.inj h).2⟩
      | cons y ys =>
          rw [List.map_cons, joined, List.append_assoc] at h
          exact absurd h (hStart y r _)
  | cons x xs =>
      cases ys with
      | nil =>
          rw [List.map_cons, joined, List.append_assoc] at h
          exact absurd h.symm (hStart x r' _)
      | cons y ys =>
          rw [List.map_cons, List.map_cons, joined, joined,
            List.append_assoc, List.append_assoc] at h
          rcases hOne x List.mem_cons_self y _ _
            (ends_after hClose) (ends_after hClose) h with
            ⟨hItem, hRest⟩
          rcases after_inj hClose hComma
            (fun z hz => hOne z (List.mem_cons_of_mem _ hz))
            hRest with ⟨hItems, hFollows⟩
          exact ⟨by rw [hItem, hItems], hFollows⟩

end Lists

/- Printing items is printing each of them. -/
theorem printItems_eq_map
    (items : List Json) :
    printItems items = items.map print := by
  induction items with
  | nil => rfl
  | cons item items ih => rw [printItems, ih, List.map_cons]

/- Printing fields is printing each of them. -/
theorem printFields_eq_map
    (fields : List (String × Json)) :
    printFields fields = fields.map printField := by
  induction fields with
  | nil => rfl
  | cons field fields ih =>
      rw [printFields, ih, List.map_cons]

/- A field is read back if its value is. -/
theorem readsBack_field
    {field : String × Json}
    (h : ReadsBack print field.2) :
    ReadsBack printField field := by
  rcases field with ⟨key, x⟩
  rintro ⟨key', y⟩ r r' hr hr' hText
  rw [printField, printField, List.append_assoc,
    List.append_assoc] at hText
  rcases quote_inj hText with ⟨hKey, hValue⟩
  rcases h y r r' hr hr' (List.cons.inj hValue).2 with
    ⟨hSame, hRest⟩
  exact ⟨Prod.ext hKey hSame, hRest⟩

/- Every value is read back, whatever comes after it. -/
theorem readsBack_print (x : Json) : ReadsBack print x := by
  induction x using Json.induction with
  | null =>
      intro y r r' hr hr' h
      cases y <;> try cases kind_eq h
      exact ⟨rfl, List.append_cancel_left h⟩
  | bool b =>
      intro y r r' hr hr' h
      cases y <;> try cases kind_eq h
      rename_i b'
      cases b <;> cases b'
      · exact ⟨rfl, List.append_cancel_left h⟩
      · cases h
      · cases h
      · exact ⟨rfl, List.append_cancel_left h⟩
  | num n =>
      intro y r r' hr hr' h
      cases y <;> try cases kind_eq h
      rename_i m
      rcases run_inj n.numerals m.numerals hr hr' h with
        ⟨hText, hRest⟩
      exact ⟨by rw [JsonNumber.ext hText], hRest⟩
  | str s =>
      intro y r r' hr hr' h
      cases y <;> try cases kind_eq h
      rcases quote_inj h with ⟨hText, hRest⟩
      exact ⟨by rw [hText], hRest⟩
  | arr items ih =>
      intro y r r' hr hr' h
      cases y <;> try cases kind_eq h
      simp only [print, List.cons_append, List.append_assoc,
        List.nil_append, List.cons.injEq, true_and,
        printItems_eq_map] at h
      rcases joined_inj (by decide) (by decide)
        (fun y r r' => start_ne (by decide)) ih h with
        ⟨hItems, hRest⟩
      exact ⟨by rw [hItems], hRest⟩
  | obj fields ih =>
      intro y r r' hr hr' h
      cases y <;> try cases kind_eq h
      simp only [print, List.cons_append, List.append_assoc,
        List.nil_append, List.cons.injEq, true_and,
        printFields_eq_map] at h
      rcases joined_inj (by decide) (by decide)
        (fun y r r' => field_start_ne)
        (fun field hField => readsBack_field (ih field hField))
        h with ⟨hFields, hRest⟩
      exact ⟨by rw [hFields], hRest⟩

/- A text is that of one value only. -/
theorem print_injective
    {x y : Json}
    (h : x.print = y.print) : x = y := by
  have hNil : Ends numeral [] := by
    intro c tail hEq
    cases hEq
  exact (readsBack_print x y [] [] hNil hNil (by rw [h])).1

/- A text that begins with a value and is an object is it. -/
theorem eq_of_print_append
    {x : Json} {fields : List (String × Json)} {r : List Char}
    (h : x.print ++ r = (obj fields).print) :
    x = obj fields ∧ r = [] := by
  rw [← List.append_nil (obj fields).print] at h
  cases x <;> try cases kind_eq h
  simp only [print, List.cons_append, List.append_assoc,
    List.nil_append, List.cons.injEq, true_and,
    printFields_eq_map] at h
  rcases joined_inj (by decide) (by decide)
    (fun y r r' => field_start_ne)
    (fun field _ => readsBack_field (readsBack_print field.2))
    h with ⟨hFields, hRest⟩
  exact ⟨by rw [hFields], hRest⟩

------------------------------------------------------------
-- Control Characters
------------------------------------------------------------

theorem le_of_mem_escape
    {c d : Char}
    (h : d ∈ escape c) :
    32 ≤ d.toNat := by
  have hDigit :
      ∀ n < 16, 32 ≤ (Nat.digitChar n).toNat := by
    decide
  have hLetter :
      ∀ letter, controlLetter c = some letter →
        32 ≤ letter.toNat := by
    intro letter hSome
    unfold controlLetter at hSome
    split_ifs at hSome
    all_goals
      cases hSome
      decide
  have hMark : 32 ≤ backslash.toNat := by decide
  unfold escape at h
  split at h
  · rename_i hWhich
    rcases List.mem_pair.mp h with rfl | rfl
    · exact hMark
    · rcases hWhich with rfl | rfl <;> decide
  · split at h
    · rename_i letter hSome
      rcases List.mem_pair.mp h with rfl | rfl
      · exact hMark
      · exact hLetter _ hSome
    · split at h
      · have hHigh := hDigit (c.toNat / 16) (by omega)
        have hLow := hDigit (c.toNat % 16) (by omega)
        simp only [List.mem_cons, List.not_mem_nil, or_false]
          at h
        rcases h with rfl | rfl | rfl | rfl | rfl | rfl
        · exact hMark
        · decide
        · decide
        · decide
        · exact hHigh
        · exact hLow
      · rename_i hPlain
        rw [List.mem_singleton.mp h]
        omega

theorem le_of_mem_quote
    {s : String} {d : Char}
    (h : d ∈ quote s) :
    32 ≤ d.toNat := by
  have hMark : 32 ≤ quotation.toNat := by decide
  rw [quote, List.mem_cons, List.mem_append,
    List.mem_singleton, List.mem_flatMap] at h
  rcases h with rfl | ⟨c, _, hc⟩ | rfl
  · exact hMark
  · exact le_of_mem_escape hc
  · exact hMark

theorem mem_joined
    {texts : List (List Char)} {d : Char}
    (h : d ∈ joined texts) :
    d = ',' ∨ ∃ text ∈ texts, d ∈ text := by
  cases texts with
  | nil => cases h
  | cons text texts =>
      rw [joined, after, List.mem_append, List.mem_flatMap] at h
      rcases h with hFirst | ⟨other, hOther, hMem⟩
      · exact .inr ⟨text, List.mem_cons_self, hFirst⟩
      · rcases List.mem_cons.mp hMem with rfl | hMem
        · exact .inl rfl
        · exact .inr
            ⟨other, List.mem_cons_of_mem _ hOther, hMem⟩

/- The text of a value has no control character in it. -/
theorem le_of_mem_print
    {d : Char} (x : Json) :
    d ∈ x.print → 32 ≤ d.toNat := by
  induction x using Json.induction with
  | null =>
      intro h
      simp only [print, List.mem_cons, List.not_mem_nil,
        or_false] at h
      rcases h with rfl | rfl | rfl | rfl <;> decide
  | bool b =>
      intro h
      cases b <;>
        simp only [print, List.mem_cons, List.not_mem_nil,
          or_false] at h
      · rcases h with rfl | rfl | rfl | rfl | rfl <;> decide
      · rcases h with rfl | rfl | rfl | rfl <;> decide
  | num n =>
      intro h
      have hNumeral := n.numerals d h
      simp only [numeral, Bool.or_eq_true,
        decide_eq_true_eq] at hNumeral
      rcases hNumeral with
        (((hDigit | rfl) | rfl) | rfl) | rfl
      · have hRange := Char.isDigit_iff_toNat.mp hDigit
        exact le_trans (by decide) hRange.1
      all_goals decide
  | str s => exact le_of_mem_quote
  | arr items ih =>
      intro h
      rw [print, List.mem_cons, List.mem_append,
        List.mem_singleton, printItems_eq_map] at h
      rcases h with rfl | hMem | rfl
      · decide
      · rcases mem_joined hMem with rfl | ⟨text, hText, hIn⟩
        · decide
        · rcases List.mem_map.mp hText with ⟨item, hItem, rfl⟩
          exact ih item hItem hIn
      · decide
  | obj fields ih =>
      intro h
      rw [print, List.mem_cons, List.mem_append,
        List.mem_singleton, printFields_eq_map] at h
      rcases h with rfl | hMem | rfl
      · decide
      · rcases mem_joined hMem with rfl | ⟨text, hText, hIn⟩
        · decide
        · rcases List.mem_map.mp hText with
            ⟨⟨key, value⟩, hField, rfl⟩
          rw [printField, List.mem_append, List.mem_cons]
            at hIn
          rcases hIn with hKey | rfl | hValue
          · exact le_of_mem_quote hKey
          · decide
          · exact ih (key, value) hField hValue
      · decide

------------------------------------------------------------
-- Objects
------------------------------------------------------------

/- An object lists its fields in the order of their keys. -/
def object (fields : List (String × Json)) : Json :=
  .obj (fields.insertionSort (fun a b => a.1 ≤ b.1))

section Objects

variable {fields fields' : List (String × Json)}

theorem perm_of_object
    (h : object fields = object fields') :
    fields.Perm fields' := by
  have hSorted := Json.obj.inj h
  exact (List.perm_insertionSort _ fields).symm.trans
    (hSorted ▸ List.perm_insertionSort _ fields')

theorem object_of_perm
    (hUnique : Table.KeyUnique Prod.fst fields)
    (hPerm : fields.Perm fields') :
    object fields = object fields' := by
  have hTotal :
      Std.Total
        (fun a b : String × Json => a.1 ≤ b.1) :=
    ⟨fun a b => le_total a.1 b.1⟩
  have hTrans :
      IsTrans (String × Json) (fun a b => a.1 ≤ b.1) :=
    ⟨fun _ _ _ hAB hBC => hAB.trans hBC⟩
  unfold object
  congr 1
  have hBoth :
      (fields.insertionSort (fun a b => a.1 ≤ b.1)).Perm
        (fields'.insertionSort (fun a b => a.1 ≤ b.1)) :=
    (List.perm_insertionSort _ fields).trans
      (hPerm.trans (List.perm_insertionSort _ fields').symm)
  refine hBoth.eq_of_pairwise ?_
    (List.pairwise_insertionSort _ fields)
    (List.pairwise_insertionSort _ fields')
  intro a b ha hb hAB hBA
  have hKey : a.1 = b.1 := le_antisymm hAB hBA
  apply hUnique.eq_of_key_eq _ _ hKey
  · exact (List.mem_insertionSort _).mp ha
  · exact hPerm.mem_iff.mpr ((List.mem_insertionSort _).mp hb)

/- Fields that are given under the same keys are the same. -/
theorem object_inj
    (hUnique : Table.KeyUnique Prod.fst fields)
    (hKeys : fields.map Prod.fst = fields'.map Prod.fst)
    (h : object fields = object fields') :
    fields = fields' := by
  have hPerm := perm_of_object h
  clear h
  induction fields generalizing fields' with
  | nil => exact hPerm.nil_eq
  | cons x xs ih =>
      cases fields' with
      | nil => cases hKeys
      | cons y ys =>
          obtain ⟨hKey, hRest⟩ := List.cons.inj hKeys
          have hNodup := List.nodup_cons.mp hUnique
          have hSame : x = y := by
            have hMem := hPerm.mem_iff.mp List.mem_cons_self
            rcases List.mem_cons.mp hMem with hSame | hLater
            · exact hSame
            · have hIn : x.1 ∈ xs.map Prod.fst := by
                rw [hRest]
                exact List.mem_map_of_mem hLater
              exact absurd hIn hNodup.1
          subst hSame
          rw [ih hNodup.2 hRest hPerm.cons_inv]

theorem object_eq_iff
    (hUnique : Table.KeyUnique Prod.fst fields)
    (hKeys : fields.map Prod.fst = fields'.map Prod.fst) :
    object fields = object fields' ↔ fields = fields' :=
  ⟨object_inj hUnique hKeys, congrArg object⟩

end Objects

------------------------------------------------------------
-- Missing Values
------------------------------------------------------------

section Optional

variable {α : Type}
variable {f : α → Json}

def optional (f : α → Json) : Option α → Json
| none => .null
| some x => f x

theorem optional_inj
    {a b : Option α}
    (hInj : Function.Injective f)
    (hValue : ∀ x, f x ≠ .null) :
    optional f a = optional f b ↔ a = b := by
  constructor
  · intro h
    cases a with
    | none =>
        cases b with
        | none => rfl
        | some y => exact absurd h.symm (hValue y)
    | some x =>
        cases b with
        | none => exact absurd h (hValue x)
        | some y => rw [hInj h]
  · exact congrArg (optional f)

end Optional

end Json
