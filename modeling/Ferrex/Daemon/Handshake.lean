import Ferrex.Daemon.Spawn
import Ferrex.Lib.Json
import Ferrex.Lib.JsonReader
import Ferrex.Lib.Text

/-
  The two lines of a handshake: the proxy's hello and the
  daemon's reply, as they are written and as they are read.
  What serde_json makes of a text is a parameter.

  Main declarations:
    * `Hello`, `HelloReply`
    * `Reader`, `Reader.Reads`, `Reader.compact`
    * `Hello.decode`, `Hello.check`, `HelloReply.decode`
    * `Hello.decode_of_text`, `Hello.decode_of_cut`
    * `HelloReply.decode_encode`
-/

------------------------------------------------------------
-- Lines
------------------------------------------------------------

namespace Ferrex

namespace Daemon

namespace Handshake

open Spawn (RefusalKind AttemptError)

/- The version that both sides must speak. -/
def protocolVersion : Nat := 1

/- What the proxy says first. -/
structure Hello where
  ferrexHello : Nat
  key : String
  «namespace» : String
deriving DecidableEq

/- The name of a kind on the wire, and in debug output. -/
def wireName : RefusalKind → String
| .protocol => "protocol"
| .key => "key"
| .init => "init"
| .session => "session"

/- A kind as a debug print writes it. -/
def debugName : RefusalKind → String
| .protocol => "Protocol"
| .key => "Key"
| .init => "Init"
| .session => "Session"

/- The daemon's one answer. -/
structure HelloReply where
  ok : Bool
  kind : Option RefusalKind
  error : Option String
deriving DecidableEq

/- A JSON value and the end of the line. -/
def encodeLine (value : Json) : List Char :=
  value.print ++ ['\n']

namespace Hello

/- The hello of this version. -/
def new (key ns : String) : Hello where
  ferrexHello := protocolVersion
  key := key
  «namespace» := ns

/- Its fields, in the order of the struct. -/
def fields (hello : Hello) : List (String × Json) :=
  [("ferrex_hello", .num (.ofNat hello.ferrexHello)),
    ("key", .str hello.key),
    ("namespace", .str hello.namespace)]

/- The text of a hello, without the end of its line. -/
def text (hello : Hello) : List Char :=
  (Json.obj hello.fields).print

/- The line that is sent. -/
def encode (hello : Hello) : List Char :=
  encodeLine (.obj hello.fields)

end Hello

namespace HelloReply

/- The answer to a hello that fits. -/
def accept : HelloReply := ⟨true, none, none⟩

/-
  The answer to one that does not, with its kind and its
  reason.
-/
def refuse (kind : RefusalKind) (error : String) : HelloReply :=
  ⟨false, some kind, some error⟩

/- What is missing is left out. -/
def fields (reply : HelloReply) : List (String × Json) :=
  ("ok", .bool reply.ok) ::
    ((reply.kind.map (fun kind =>
        ("kind", Json.str (wireName kind)))).toList ++
      (reply.error.map (fun error =>
        ("error", Json.str error))).toList)

/- The answer as a text. -/
def text (reply : HelloReply) : List Char :=
  (Json.obj reply.fields).print

/- The answer as the line that is sent. -/
def encode (reply : HelloReply) : List Char :=
  encodeLine (.obj reply.fields)

end HelloReply

------------------------------------------------------------
-- Reading
------------------------------------------------------------

/- serde_json: what it reads, and the texts of its errors. -/
structure Reader where
  fromStr : List Char → Except String Json
  missing : String → String
  duplicate : String → String
  invalid : Json → String

/- A member that a `Value` holds: the last one of its name. -/
def member (name : String) : Json → Option Json
| .obj fields => fields.reverse.lookup name
| _ => none

/- An integer that fits in 64 bits. -/
def asU64 : Json → Option Nat
| .num n =>
    if n.text.all Char.isDigit ∧
        Nat.ofDigitChars 10 n.text 0 < 2 ^ 64 then
      some (Nat.ofDigitChars 10 n.text 0)
    else
      none
| _ => none

/- An integer that fits in 32 bits. -/
def asU32 (value : Json) : Option Nat :=
  (asU64 value).filter (fun n => n < 2 ^ 32)

/- A string, and nothing else. -/
def asStr : Json → Option String
| .str s => some s
| _ => none

/- A field of the struct, when the value has such a member. -/
def Reader.field
    {α : Type}
    (reader : Reader)
    (read : Json → Option α)
    (name : String)
    (value : Json) : Except String (Option α) :=
  match member name value with
  | none => .ok none
  | some x =>
      match read x with
      | none => .error (reader.invalid x)
      | some a => .ok (some a)

/- A field which the struct has no default for. -/
def Reader.required
    {α : Type}
    (reader : Reader)
    (name : String)
    (x : Option α) : Except String α :=
  match x with
  | none => .error (reader.missing name)
  | some a => .ok a

namespace Hello

/- The members of a `Value` are visited by name. -/
def fromValue
    (reader : Reader)
    (value : Json) : Except String Hello :=
  match value with
  | .obj _ => do
      let version ← reader.field asU32 "ferrex_hello" value
      let key ← reader.field asStr "key" value
      let ns ← reader.field asStr "namespace" value
      let version ← reader.required "ferrex_hello" version
      let key ← reader.required "key" key
      let ns ← reader.required "namespace" ns
      .ok ⟨version, key, ns⟩
  | _ => .error (reader.invalid value)

/-
  A refusal because the two sides do not understand each
  other.
-/
def protocol (message : String) : HelloReply :=
  .refuse .protocol message

/-
  A hello is read in two steps, so that another version is
  told apart from a bad line.
-/
def decode
    (reader : Reader)
    (line : List Char) : Except HelloReply Hello :=
  match reader.fromStr (Text.trimChars line) with
  | .error e => .error (protocol ("malformed hello: " ++ e))
  | .ok value =>
      let version := (member "ferrex_hello" value).bind asU64
      if version = some protocolVersion then
        match fromValue reader value with
        | .error e =>
            .error (protocol ("malformed hello: " ++ e))
        | .ok hello => .ok hello
      else
        .error (protocol
          ("protocol version mismatch: proxy sent " ++
            (version.map toString).getD "missing" ++
            ", daemon speaks " ++ toString protocolVersion))

/- The daemon serves one key only. -/
def check
    (hello : Hello)
    (key : String) : Except HelloReply Unit :=
  if hello.key = key then
    .ok ()
  else
    .error (.refuse .key
      ("key mismatch: proxy sent " ++ hello.key ++
        ", daemon is " ++ key))

end Hello

/- A kind, in lower case. -/
def readKind : Json → Option RefusalKind
| .str s =>
    [.protocol, .key, .init, .session].find?
      (fun kind => wireName kind = s)
| _ => none

/- A field that may be null. -/
def readOptional
    {α : Type}
    (read : Json → Option α) : Json → Option (Option α)
| .null => some none
| value => (read value).map some

/- A truth value, and nothing else. -/
def asBool : Json → Option Bool
| .bool b => some b
| _ => none

namespace HelloReply

/- The fields of a reply that have been read so far. -/
structure Partial where
  ok : Option Bool
  kind : Option (Option RefusalKind)
  error : Option (Option String)

/- The next member of a text: no field is given twice. -/
def visit
    (reader : Reader)
    (part : Partial)
    (field : String × Json) : Except String Partial :=
  if field.1 = "ok" then
    if part.ok.isSome then
      .error (reader.duplicate "ok")
    else
      match asBool field.2 with
      | none => .error (reader.invalid field.2)
      | some b => .ok { part with ok := some b }
  else if field.1 = "kind" then
    if part.kind.isSome then
      .error (reader.duplicate "kind")
    else
      match readOptional readKind field.2 with
      | none => .error (reader.invalid field.2)
      | some kind => .ok { part with kind := some kind }
  else if field.1 = "error" then
    if part.error.isSome then
      .error (reader.duplicate "error")
    else
      match readOptional asStr field.2 with
      | none => .error (reader.invalid field.2)
      | some error => .ok { part with error := some error }
  else
    .ok part

/-
  The derived reader of the answer: each field at most once,
  the flag required.
-/
def fromFields
    (reader : Reader)
    (fields : List (String × Json)) :
    Except String HelloReply := do
  let part ←
    fields.foldlM (visit reader) ⟨none, none, none⟩
  let ok ← reader.required "ok" part.ok
  .ok ⟨ok, part.kind.getD none, part.error.getD none⟩

/- The answer as it is read from a line. -/
def decode
    (reader : Reader)
    (line : List Char) : Except String HelloReply :=
  match reader.fromStr (Text.trimChars line) with
  | .error e => .error ("malformed hello reply: " ++ e)
  | .ok (.obj fields) =>
      match fromFields reader fields with
      | .error e => .error ("malformed hello reply: " ++ e)
      | .ok reply => .ok reply
  | .ok value =>
      .error ("malformed hello reply: " ++ reader.invalid value)

end HelloReply

------------------------------------------------------------
-- Round Trips
------------------------------------------------------------

/- The members that these lines have. -/
def Plain : Json → Prop
| .bool _ => True
| .str _ => True
| .num n => ∃ k, k < 2 ^ 64 ∧ n = .ofNat k
| _ => False

/-
  What the lines rely on: an object that was written is read,
  and one that was cut short is not.
-/
structure Reader.Reads (reader : Reader) : Prop where
  print :
    ∀ fields, (∀ field ∈ fields, Plain field.2) →
      reader.fromStr (Json.obj fields).print =
        .ok (.obj fields)
  cut :
    ∀ fields text rest, (∀ field ∈ fields, Plain field.2) →
      text ++ rest = (Json.obj fields).print → rest ≠ [] →
        ∃ e, reader.fromStr text = .error e

/- A reader of the texts that are written without spaces. -/
def Reader.compact : Reader where
  fromStr text :=
    match Json.parse text with
    | none => .error "expected value at line 1 column 1"
    | some value => .ok value
  missing name := "missing field `" ++ name ++ "`"
  duplicate name := "duplicate field `" ++ name ++ "`"
  invalid _ := "invalid type"

/- The compact printer is one that the reader can read. -/
theorem Reader.compact_reads : Reader.compact.Reads where
  print fields _ := by
    simp only [Reader.compact, Json.parse_eq_some_iff.mpr rfl]
  cut fields text rest _ hText hRest := by
    refine ⟨"expected value at line 1 column 1", ?_⟩
    have hNone : Json.parse text = none := by
      cases hParse : Json.parse text with
      | none => rfl
      | some value =>
          rw [← Json.parse_eq_some_iff.mp hParse] at hText
          exact absurd (Json.eq_of_print_append hText).2 hRest
    simp only [Reader.compact, hNone]

/- A small number is read back. -/
theorem asU64_ofNat
    {n : Nat}
    (h : n < 2 ^ 64) :
    asU64 (.num (.ofNat n)) = some n := by
  have hValue :
      Nat.ofDigitChars 10 (Nat.toDigits 10 n) 0 = n :=
    Nat.ofDigitChars_ten_toDigits
  have hDigits :
      (Nat.toDigits 10 n).all Char.isDigit = true := by
    rw [List.all_eq_true]
    intro c hc
    exact Nat.isDigit_of_mem_toDigits (by decide) (by decide) hc
  simp only [asU64, JsonNumber.ofNat, hValue, hDigits, h,
    and_self, if_true]

/- A small number is read back at 32 bits. -/
theorem asU32_ofNat
    {n : Nat}
    (h : n < 2 ^ 32) :
    asU32 (.num (.ofNat n)) = some n := by
  rw [asU32, asU64_ofNat (by omega), Option.filter_some,
    if_pos (decide_eq_true h)]

/- An object has no blank at either end. -/
theorem trimmed_print
    (fields : List (String × Json)) :
    Text.CaseData.Trimmed (Json.obj fields).print := by
  simp only [Json.print]
  constructor
  · intro c hc
    cases hc
    decide
  · intro c hc
    rw [← List.cons_append, List.getLast?_concat] at hc
    cases hc
    decide

/- The end of a line is trimmed off. -/
theorem trimChars_line
    (fields : List (String × Json)) :
    Text.trimChars (encodeLine (.obj fields)) =
      (Json.obj fields).print := by
  have hSpace : ∀ c ∈ ['\n'], Text.isWhitespace c = true := by
    intro c hc
    rw [List.mem_singleton.mp hc]
    decide
  have hNone :
      ∀ c ∈ ([] : List Char), Text.isWhitespace c = true := by
    simp
  exact Text.CaseData.trimChars_append hNone hSpace
    (trimmed_print fields)

variable {reader : Reader}

namespace Hello

/-
  The fields of a hello are read back as they were written.
-/
theorem plain_fields
    {hello : Hello}
    (hVersion : hello.ferrexHello < 2 ^ 32) :
    ∀ field ∈ hello.fields, Plain field.2 := by
  intro field hField
  simp only [fields, List.mem_cons, List.not_mem_nil,
    or_false] at hField
  rcases hField with rfl | rfl | rfl
  · exact ⟨_, by omega, rfl⟩
  · exact True.intro
  · exact True.intro

/- What the daemon makes of a hello that it has in full. -/
def verdict (hello : Hello) : Except HelloReply Hello :=
  if hello.ferrexHello = protocolVersion then
    .ok hello
  else
    .error (protocol
      ("protocol version mismatch: proxy sent " ++
        toString hello.ferrexHello ++
        ", daemon speaks " ++ toString protocolVersion))

/- A hello that is there in full, with its newline or not. -/
theorem decode_of_text
    {hello : Hello} {line : List Char}
    (hReads : reader.Reads)
    (hVersion : hello.ferrexHello < 2 ^ 32)
    (hLine : Text.trimChars line = hello.text) :
    decode reader line = hello.verdict := by
  have hJson := hReads.print _ (plain_fields hVersion)
  have hMember :
      member "ferrex_hello" (.obj hello.fields) =
        some (.num (.ofNat hello.ferrexHello)) := by
    simp [member, fields, List.lookup_cons]
  have hKey :
      member "key" (.obj hello.fields) =
        some (.str hello.key) := by
    simp [member, fields, List.lookup_cons]
  have hNamespace :
      member "namespace" (.obj hello.fields) =
        some (.str hello.namespace) := by
    simp [member, fields]
  have hWide := asU64_ofNat (n := hello.ferrexHello) (by omega)
  have hValue :
      fromValue reader (.obj hello.fields) = .ok hello := by
    simp only [fromValue, Reader.field, hMember, hKey,
      hNamespace, asU32_ofNat hVersion]
    rfl
  have hText : reader.fromStr hello.text = .ok (.obj hello.fields) :=
    hJson
  simp only [decode, hLine, hText, hMember, Option.bind_some,
    hWide, hValue, verdict, Option.some.injEq]
  rfl

/- A hello that is cut short is refused. -/
theorem decode_of_cut
    {hello : Hello} {line rest : List Char}
    (hReads : reader.Reads)
    (hVersion : hello.ferrexHello < 2 ^ 32)
    (hLine : line ≠ [])
    (hRest : rest ≠ [])
    (hText : line ++ rest = hello.text) :
    ∃ message, decode reader line = .error (protocol message) := by
  rcases Text.CaseData.exists_append_trimChars line with
    ⟨ws, vs, hws, _, hEq⟩
  have hStart : ∃ tail, line = '{' :: tail := by
    cases line with
    | nil => exact absurd rfl hLine
    | cons c tail =>
        rw [text, Json.print, List.cons_append] at hText
        exact ⟨tail, by rw [(List.cons.inj hText).1]⟩
  have hFront : ws = [] := by
    rcases hStart with ⟨tail, hTail⟩
    cases ws with
    | nil => rfl
    | cons w ws =>
        rw [hTail, List.cons_append] at hEq
        have hSpace := hws w List.mem_cons_self
        rw [← (List.cons.inj hEq).1] at hSpace
        exact absurd hSpace (by decide)
  rw [hFront, List.nil_append] at hEq
  have hWhole :
      Text.trimChars line ++ (vs ++ rest) = hello.text := by
    rw [← List.append_assoc, ← hEq, hText]
  rcases hReads.cut _ _ _ (plain_fields hVersion) hWhole
    (by simp [hRest]) with ⟨e, hError⟩
  exact ⟨_, by rw [decode, hError]⟩

end Hello

/- A kind is known by its name on the wire. -/
theorem readKind_wireName (kind : RefusalKind) :
    readKind (.str (wireName kind)) = some kind := by
  cases kind <;> decide

namespace HelloReply

/- The fields of an answer are read back too. -/
theorem plain_fields (reply : HelloReply) :
    ∀ field ∈ reply.fields, Plain field.2 := by
  rcases reply with ⟨ok, kind, error⟩
  cases kind <;> cases error <;> simp [fields, Plain]

/- Whatever is replied is read. -/
theorem decode_encode
    (hReads : reader.Reads)
    (reply : HelloReply) :
    decode reader reply.encode = .ok reply := by
  have hFields : fromFields reader reply.fields = .ok reply := by
    rcases reply with ⟨ok, kind, error⟩
    cases kind with
    | none => cases error <;> rfl
    | some kind =>
        have hKind := readKind_wireName kind
        cases error with
        | none =>
            simp [fromFields, fields, visit, asBool,
              readOptional, hKind, Reader.required,
              bind, Except.bind, pure, Except.pure]
        | some error =>
            simp [fromFields, fields, visit, asBool,
              readOptional, hKind, asStr, Reader.required,
              bind, Except.bind, pure, Except.pure]
  rw [decode, encode, trimChars_line,
    hReads.print _ (plain_fields reply)]
  simp only [hFields]

end HelloReply

end Handshake

end Daemon

end Ferrex
