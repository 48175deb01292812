import Ferrex.Lib.Json

/-
  A reader of compact JSON text.  It reads a value from the
  front of a text, with the length of the text as fuel, and
  accepts the texts of values and no others.

  Main declarations:
    * `Json.read`, `Json.parse`
    * `Json.read_print`
    * `Json.parse_eq_some_iff`
-/

------------------------------------------------------------
-- Strings
------------------------------------------------------------

namespace Json

/- Puts what was read before in front of what was read next. -/
def before
    {α : Type}
    (x : α)
    (next : List α × List Char) : List α × List Char :=
  (x :: next.1, next.2)

/- The characters up to the next quotation mark. -/
def readChars : Nat → List Char → Option (List Char × List Char)
| 0, _ => none
| _, [] => none
| n + 1, c :: rest =>
    if c = quotation then
      some ([], rest)
    else
      (unescape (c :: rest)).bind (fun d =>
        (readChars n d.2).map (before d.1))

/- A string, once its opening quotation mark is there. -/
def readQuoted
    (n : Nat) : List Char → Option (String × List Char)
| [] => none
| c :: rest =>
    if c = quotation then
      (readChars n rest).map
        (fun cs => (String.ofList cs.1, cs.2))
    else
      none

/-
  No escape begins with a quotation mark, so the closing one
  is found.
-/
theorem exists_escape (c : Char) :
    ∃ d tail, escape c = d :: tail ∧ d ≠ quotation := by
  have hBack := unescape_escape c []
  rw [List.append_nil] at hBack
  cases hText : escape c with
  | nil =>
      rw [hText] at hBack
      cases hBack
  | cons d tail =>
      refine ⟨d, tail, rfl, ?_⟩
      rintro rfl
      rw [hText] at hBack
      cases hBack

/- The characters of a string are read back. -/
theorem readChars_escapes
    {n : Nat} {cs r : List Char}
    (hFuel : (cs.flatMap escape).length < n) :
    readChars n (cs.flatMap escape ++ quotation :: r) =
      some (cs, r) := by
  induction cs generalizing n with
  | nil =>
      cases n with
      | zero => cases hFuel
      | succ n => rfl
  | cons c cs ih =>
      rcases exists_escape c with ⟨d, tail, hText, hNot⟩
      have hRead := unescape_escape c
        (cs.flatMap escape ++ quotation :: r)
      rw [List.flatMap_cons, hText, List.length_append,
        List.length_cons] at hFuel
      rw [hText] at hRead
      rw [List.flatMap_cons, hText, List.append_assoc]
      cases n with
      | zero => cases hFuel
      | succ n =>
          simp only [List.cons_append] at hRead ⊢
          rw [readChars, if_neg hNot, hRead, Option.bind_some,
            ih (by omega)]
          rfl

/- A string is read back, whatever follows it. -/
theorem readQuoted_quote
    {n : Nat} {s : String} {r : List Char}
    (hFuel : (quote s).length ≤ n) :
    readQuoted n (quote s ++ r) = some (s, r) := by
  simp only [quote, List.length_cons, List.length_append,
    List.length_nil] at hFuel
  rw [quote, List.cons_append, List.append_assoc,
    List.singleton_append, readQuoted, if_pos rfl,
    readChars_escapes (by omega), Option.map_some]
  rw [String.ofList_toList]

------------------------------------------------------------
-- Lists
------------------------------------------------------------

section Lists

variable {α : Type}

/- What stands after a comma each, up to the end. -/
def readAfter
    (one : List Char → Option (α × List Char))
    (close : Char) :
    Nat → List Char → Option (List α × List Char)
| 0, _ => none
| _, [] => none
| n + 1, c :: rest =>
    if c = close then
      some ([], rest)
    else if c = ',' then
      (one rest).bind (fun x =>
        (readAfter one close n x.2).map (before x.1))
    else
      none

/- A list between its brackets, which may be empty. -/
def readJoined
    (one : List Char → Option (α × List Char))
    (close : Char)
    (n : Nat) : List Char → Option (List α × List Char)
| [] => none
| c :: rest =>
    if c = close then
      some ([], rest)
    else
      (one (c :: rest)).bind (fun x =>
        (readAfter one close n x.2).map (before x.1))

variable {one : List Char → Option (α × List Char)}
variable {text : α → List Char} {close : Char}
variable {xs : List α} {r : List Char} {n : Nat}

/-
  The elements after the first are read back, one by one.
-/
theorem readAfter_after
    (hComma : close ≠ ',')
    (hClose : numeral close = false)
    (hOne :
      ∀ x ∈ xs, ∀ r, Ends numeral r →
        one (text x ++ r) = some (x, r))
    (hFuel : xs.length < n) :
    readAfter one close n (after (xs.map text) ++ close :: r) =
      some (xs, r) := by
  induction xs generalizing n with
  | nil =>
      cases n with
      | zero => cases hFuel
      | succ n =>
          simp [after, readAfter]
  | cons x xs ih =>
      cases n with
      | zero => cases hFuel
      | succ n =>
          have hRest := ih
            (fun y hy => hOne y (List.mem_cons_of_mem _ hy))
            (n := n) (by simpa using hFuel)
          have hHead := hOne x List.mem_cons_self
            (after (xs.map text) ++ close :: r)
            (ends_after hClose)
          have hText :
              after ((x :: xs).map text) ++ close :: r =
                ',' :: (text x ++
                  (after (xs.map text) ++ close :: r)) := by
            simp [after]
          rw [hText, readAfter, if_neg hComma.symm, if_pos rfl,
            hHead, Option.bind_some, hRest]
          rfl

/- Each of them costs a comma, so the fuel is enough. -/
theorem length_le_after (texts : List (List Char)) :
    texts.length ≤ (after texts).length := by
  induction texts with
  | nil => exact Nat.zero_le _
  | cons t texts ih =>
      simp only [after, List.flatMap_cons, List.length_append,
        List.length_cons] at ih ⊢
      omega

/- Each of the texts is a part of the whole. -/
theorem length_le_joined
    {t : List Char} {texts : List (List Char)}
    (h : t ∈ texts) :
    t.length ≤ (joined texts).length := by
  have hAfter :
      ∀ texts : List (List Char), t ∈ texts →
        t.length ≤ (after texts).length := by
    intro texts hMem
    rcases List.append_of_mem hMem with ⟨us, vs, rfl⟩
    simp only [after, List.flatMap_append, List.flatMap_cons,
      List.length_append, List.length_cons]
    omega
  cases texts with
  | nil => cases h
  | cons u texts =>
      rw [joined, List.length_append]
      rcases List.mem_cons.mp h with rfl | hMem
      · omega
      · have hLe := hAfter texts hMem
        omega

/-
  The whole list is read back, whatever follows its bracket.
-/
theorem readJoined_joined
    (hComma : close ≠ ',')
    (hClose : numeral close = false)
    (hStart : ∀ x ∈ xs, ∀ r r', close :: r ≠ text x ++ r')
    (hOne :
      ∀ x ∈ xs, ∀ r, Ends numeral r →
        one (text x ++ r) = some (x, r))
    (hFuel : (joined (xs.map text)).length < n) :
    readJoined one close n
        (joined (xs.map text) ++ close :: r) =
      some (xs, r) := by
  cases xs with
  | nil => simp [joined, readJoined]
  | cons x xs =>
      have hHead := hOne x List.mem_cons_self
        (after (xs.map text) ++ close :: r) (ends_after hClose)
      have hCount := length_le_after (xs.map text)
      rw [List.length_map] at hCount
      rw [List.map_cons, joined, List.length_append] at hFuel
      have hRest := readAfter_after (r := r) (n := n) hComma
        hClose (fun y hy => hOne y (List.mem_cons_of_mem _ hy))
        (by omega)
      rw [List.map_cons, joined, List.append_assoc]
      cases hText :
          text x ++ (after (xs.map text) ++ close :: r) with
      | nil => simp at hText
      | cons c tail =>
          have hNot : c ≠ close := by
            rintro rfl
            exact hStart x List.mem_cons_self tail _ hText.symm
          rw [readJoined, if_neg hNot, ← hText, hHead,
            Option.bind_some, hRest]
          rfl

end Lists

------------------------------------------------------------
-- Values
------------------------------------------------------------

/- The longest run of characters that a number may have. -/
def readNumber (cs : List Char) : Option (Json × List Char) :=
  if h : cs.takeWhile numeral ≠ [] then
    some (.num ⟨cs.takeWhile numeral, h,
      List.all_eq_true.mp List.all_takeWhile⟩,
      cs.dropWhile numeral)
  else
    none

/- One of the three words of the format. -/
def readWord
    (word : List Char)
    (value : Json)
    (cs : List Char) : Option (Json × List Char) :=
  if cs.take word.length = word then
    some (value, cs.drop word.length)
  else
    none

/- A name, a colon and a value. -/
def readField
    (one : List Char → Option (Json × List Char))
    (n : Nat)
    (cs : List Char) : Option ((String × Json) × List Char) :=
  (readQuoted n cs).bind (fun key =>
    if key.2.head? = some ':' then
      (one key.2.tail).map (fun x => ((key.1, x.1), x.2))
    else
      none)

/- A value from the front of a text. -/
def read : Nat → List Char → Option (Json × List Char)
| 0, _ => none
| _, [] => none
| n + 1, c :: rest =>
    if numeral c then
      readNumber (c :: rest)
    else if c = quotation then
      (readQuoted n (c :: rest)).map (fun s => (.str s.1, s.2))
    else if c = '[' then
      (readJoined (read n) ']' n rest).map
        (fun x => (.arr x.1, x.2))
    else if c = '{' then
      (readJoined (readField (read n) n) '}' n rest).map
        (fun x => (.obj x.1, x.2))
    else
      ((readWord ['n', 'u', 'l', 'l'] .null (c :: rest)).or
        (readWord ['t', 'r', 'u', 'e'] (.bool true)
          (c :: rest))).or
        (readWord ['f', 'a', 'l', 's', 'e'] (.bool false)
          (c :: rest))

/- A number ends where its characters do. -/
theorem readNumber_num
    {n : JsonNumber} {r : List Char}
    (hEnds : Ends numeral r) :
    readNumber (n.text ++ r) = some (.num n, r) := by
  have hRest : r.takeWhile numeral = [] := by
    cases r with
    | nil => rfl
    | cons c r => simp [hEnds c r rfl]
  have hTake : (n.text ++ r).takeWhile numeral = n.text := by
    rw [List.takeWhile_append_of_pos n.numerals, hRest,
      List.append_nil]
  have hDrop : (n.text ++ r).dropWhile numeral = r := by
    have hBoth :=
      List.takeWhile_append_dropWhile (p := numeral)
        (l := n.text ++ r)
    rw [hTake] at hBoth
    exact List.append_cancel_left hBoth
  rw [readNumber, dif_pos (by rw [hTake]; exact n.nonempty)]
  simp only [hDrop, Option.some.injEq, Prod.mk.injEq, num.injEq,
    and_true]
  exact JsonNumber.ext hTake

/- A field is read back if its value is. -/
theorem readField_printField
    {one : List Char → Option (Json × List Char)}
    {field : String × Json} {n : Nat} {r : List Char}
    (hOne : one (print field.2 ++ r) = some (field.2, r))
    (hFuel : (printField field).length ≤ n) :
    readField one n (printField field ++ r) =
      some (field, r) := by
  rcases field with ⟨key, value⟩
  rw [printField, List.length_append] at hFuel
  rw [printField, List.append_assoc, readField,
    readQuoted_quote (by omega), Option.bind_some]
  simp only [List.cons_append, List.head?_cons, if_true,
    List.tail_cons, hOne, Option.map_some]

/- A value is read back, with what follows it left over. -/
theorem read_print (x : Json) :
    ∀ {n : Nat} {r : List Char}, (print x).length < n →
      Ends numeral r → read n (print x ++ r) = some (x, r) := by
  induction x using Json.induction with
  | null =>
      intro n r hFuel hEnds
      cases n with
      | zero => cases hFuel
      | succ n => rfl
  | bool b =>
      intro n r hFuel hEnds
      cases n with
      | zero => cases hFuel
      | succ n => cases b <;> rfl
  | num m =>
      intro n r hFuel hEnds
      rcases List.exists_cons_of_ne_nil m.nonempty with
        ⟨c, tail, hText⟩
      have hNumeral := m.numerals c (by
        rw [hText]
        exact List.mem_cons_self)
      cases n with
      | zero => cases hFuel
      | succ n =>
          have hRead := readNumber_num (n := m) hEnds
          rw [print]
          rw [hText, List.cons_append] at hRead ⊢
          rw [read, if_pos hNumeral, hRead]
  | str s =>
      intro n r hFuel hEnds
      cases n with
      | zero => cases hFuel
      | succ n =>
          rw [print] at hFuel ⊢
          have hRead :=
            readQuoted_quote (r := r) (Nat.lt_succ_iff.mp hFuel)
          rw [quote, List.cons_append] at hRead ⊢
          rw [read, if_neg (by decide), if_pos rfl, hRead]
          rfl
  | arr items ih =>
      intro n r hFuel hEnds
      cases n with
      | zero => cases hFuel
      | succ n =>
          rw [print, printItems_eq_map] at hFuel ⊢
          simp only [List.length_cons, List.length_append,
            List.length_nil] at hFuel
          have hItem :
              ∀ item ∈ items, ∀ r, Ends numeral r →
                read n (print item ++ r) = some (item, r) := by
            intro item hMem r hEnds
            have hLe := length_le_joined
              (List.mem_map_of_mem (f := print) hMem)
            exact ih item hMem (by omega) hEnds
          have hJoined :
              readJoined (read n) ']' n
                  (joined (items.map print) ++ ']' :: r) =
                some (items, r) :=
            readJoined_joined (by decide) (by decide)
              (fun item _ r r' => start_ne (by decide)) hItem
              (by omega)
          rw [List.cons_append, List.append_assoc,
            List.singleton_append, read, if_neg (by decide),
            if_neg (by decide), if_pos rfl, hJoined]
          rfl
  | obj fields ih =>
      intro n r hFuel hEnds
      cases n with
      | zero => cases hFuel
      | succ n =>
          rw [print, printFields_eq_map] at hFuel ⊢
          simp only [List.length_cons, List.length_append,
            List.length_nil] at hFuel
          have hField :
              ∀ field ∈ fields, ∀ r, Ends numeral r →
                readField (read n) n (printField field ++ r) =
                  some (field, r) := by
            intro field hMem r hEnds
            have hLe := length_le_joined
              (List.mem_map_of_mem (f := printField) hMem)
            have hValue :
                (print field.2).length ≤
                  (printField field).length := by
              rw [printField, List.length_append,
                List.length_cons]
              omega
            exact readField_printField
              (ih field hMem (by omega) hEnds) (by omega)
          have hJoined :
              readJoined (readField (read n) n) '}' n
                  (joined (fields.map printField) ++ '}' :: r) =
                some (fields, r) :=
            readJoined_joined (by decide) (by decide)
              (fun field _ r r' => field_start_ne) hField
              (by omega)
          rw [List.cons_append, List.append_assoc,
            List.singleton_append, read, if_neg (by decide),
            if_neg (by decide), if_neg (by decide), if_pos rfl,
            hJoined]
          rfl

------------------------------------------------------------
-- Texts
------------------------------------------------------------

/- The value that a text is the compact text of. -/
def parse (cs : List Char) : Option Json :=
  (read (cs.length + 1) cs).bind (fun x =>
    if x.1.print = cs then some x.1 else none)

/- A text is read when it is a value's, and as that value. -/
theorem parse_eq_some_iff
    {cs : List Char} {x : Json} :
    parse cs = some x ↔ x.print = cs := by
  constructor
  · intro h
    rcases Option.bind_eq_some_iff.mp h with ⟨y, _, hSame⟩
    split at hSame
    · rename_i hText
      cases hSame
      exact hText
    · cases hSame
  · rintro rfl
    have hNil : Ends numeral [] := by
      intro c tail h
      cases h
    have hRead := read_print x (n := x.print.length + 1)
      (r := []) (Nat.lt_succ_self _) hNil
    rw [List.append_nil] at hRead
    rw [parse, hRead, Option.bind_some, if_pos rfl]

end Json
