import Ferrex.Daemon.Exchange

/-
  What either side of a handshake makes of the bytes it has
  read: a hello that the daemon has in full or that was cut
  short, why it is refused or accepted, and the reply that
  the proxy has read.

  Main declarations:
    * `Whole`, `Told`
    * `Accepts`, `Reason`
    * `accept_eq_ok`, `accept_eq_error`
    * `answer_of_newline`
-/

------------------------------------------------------------
-- Lines as Bytes
------------------------------------------------------------

namespace Ferrex

namespace Daemon

namespace Handshake

open Spawn (RefusalKind AttemptError)

/- The text of an object, and the newline after it. -/
theorem encode_line (fields : List (String × Json)) :
    Utf8.encode (encodeLine (.obj fields)) =
      Utf8.encode (Json.obj fields).print ++ [Utf8.newline] := by
  rw [encodeLine, Utf8.encode_append, Utf8.encode_newline]

/-
  A printed object has no line break, so the first one ends
  the line.
-/
theorem newline_notMem (fields : List (String × Json)) :
    Utf8.newline ∉ Utf8.encode (Json.obj fields).print := by
  intro hMem
  have hIn := Utf8.newline_mem_encode_iff.mp hMem
  exact absurd (Json.le_of_mem_print _ hIn) (by decide)

/- A printed object is not empty. -/
theorem encode_ne_nil (fields : List (String × Json)) :
    Utf8.encode (Json.obj fields).print ≠ [] := by
  intro hNil
  have hText := Utf8.encode_eq_nil_iff.mp hNil
  simp [Json.print] at hText

namespace Hello

/- The bytes of a hello without its newline. -/
def textBytes (hello : Hello) : List UInt8 :=
  Utf8.encode hello.text

/- The bytes of a hello are its text and one line break. -/
theorem bytes_eq (hello : Hello) :
    hello.bytes = hello.textBytes ++ [Utf8.newline] :=
  encode_line _

/- Hence the count. -/
theorem length_bytes (hello : Hello) :
    hello.bytes.length = hello.textBytes.length + 1 := by
  rw [bytes_eq, List.length_append, List.length_singleton]

/- Read as a line, they are the hello's line. -/
theorem heard_bytes (hello : Hello) :
    Setup.heard hello.bytes = some hello.encode := by
  have hSome : hello.bytes ≠ [] := by
    simp [bytes_eq]
  rw [Setup.heard, if_neg hSome]
  exact Utf8.decode_encode _

/-
  If the line break is cut off, the text is still read
  whole.
-/
theorem heard_textBytes (hello : Hello) :
    Setup.heard hello.textBytes = some hello.text := by
  have hSome : hello.textBytes ≠ [] := encode_ne_nil _
  rw [Setup.heard, if_neg hSome]
  exact Utf8.decode_encode _

/- Trimming does not change the text. -/
theorem trimChars_text (hello : Hello) :
    Text.trimChars hello.text = hello.text :=
  Text.CaseData.trimChars_of_trimmed (trimmed_print _)

/- Trimming removes the line break from the line. -/
theorem trimChars_encode (hello : Hello) :
    Text.trimChars hello.encode = hello.text :=
  trimChars_line _

end Hello

/- The bytes of an answer are one more than its text's. -/
theorem HelloReply.length_bytes (reply : HelloReply) :
    reply.bytes.length =
      (Utf8.encode reply.text).length + 1 := by
  rw [HelloReply.bytes, HelloReply.encode, encode_line,
    List.length_append, List.length_singleton]
  rfl

------------------------------------------------------------
-- What the Daemon Has Heard
------------------------------------------------------------

/-
  The hello is there in full: with its newline, or up to the
  limit, or up to where its proxy went away.
-/
structure Whole
    (hello : Hello)
    (up : Pipe)
    (heard : Nat) : Prop where
  size : hello.textBytes.length ≤ maxHelloBytes
  read : hello.textBytes <+: up.written
  heard :
    (heard = hello.textBytes.length + 1 ∧
        hello.textBytes.length < maxHelloBytes ∧
          hello.bytes <+: up.written) ∨
      (heard = hello.textBytes.length ∧
        (hello.textBytes.length = maxHelloBytes ∨
          (up.closed = true ∧
            up.written = hello.textBytes)))

namespace Whole

variable {hello : Hello} {up : Pipe} {heard : Nat}

/- What the proxy writes next comes after the hello. -/
theorem write
    (hWhole : Whole hello up heard)
    (hOpen : up.closed = false)
    (bs : List UInt8) :
    Whole hello (up.write bs) heard where
  size := hWhole.size
  read := hWhole.read.trans (List.prefix_append _ _)
  heard := by
    rcases hWhole.heard with ⟨hAt, hLt, hRead⟩ | ⟨hAt, hEnd⟩
    · exact .inl
        ⟨hAt, hLt, hRead.trans (List.prefix_append _ _)⟩
    · refine .inr ⟨hAt, ?_⟩
      rcases hEnd with hMax | ⟨hClosed, _⟩
      · exact .inl hMax
      · rw [hOpen] at hClosed
        cases hClosed

/- Closing the pipe takes nothing away. -/
theorem close
    (hWhole : Whole hello up heard) :
    Whole hello up.close heard where
  size := hWhole.size
  read := hWhole.read
  heard := by
    rcases hWhole.heard with hLine | ⟨hAt, hEnd⟩
    · exact .inl hLine
    · exact .inr ⟨hAt, hEnd.imp_right (fun h => ⟨rfl, h.2⟩)⟩

/- Reading takes from the front. -/
theorem take
    (hWhole : Whole hello up heard) :
    Whole hello up.take heard :=
  ⟨hWhole.size, hWhole.read, hWhole.heard⟩

end Whole

/- The line that a daemon waits with, before it looks at it. -/
def Told
    (setup : Setup)
    (up : Pipe)
    (heard : Nat)
    (line : List Char) : Prop :=
  (Text.trimChars line = setup.hello.text ∧
      Whole setup.hello up heard) ∨
    (line ≠ [] ∧
      (maxHelloBytes < setup.hello.textBytes.length ∨
        up.closed = true) ∧
          ∃ rest, rest ≠ [] ∧ line ++ rest = setup.hello.text)

namespace Told

variable {setup : Setup} {up : Pipe}
variable {heard : Nat} {line : List Char}

/-
  What the daemon was told does not change as the proxy
  writes on.
-/
theorem write
    (hTold : Told setup up heard line)
    (hOpen : up.closed = false)
    (bs : List UInt8) :
    Told setup (up.write bs) heard line :=
  hTold.imp (fun h => ⟨h.1, h.2.write hOpen bs⟩) id

/- What was told does not change as the proxy closes. -/
theorem close
    (hTold : Told setup up heard line) :
    Told setup up.close heard line :=
  hTold.imp (fun h => ⟨h.1, h.2.close⟩)
    (fun h => ⟨h.1, .inr rfl, h.2.2⟩)

/- A line that ended without its newline. -/
theorem of_end
    {x : List UInt8}
    (hStream : up.written <+: setup.hello.bytes ++ x)
    (hNone : Utf8.newline ∉ up.line)
    (hEnd :
      up.taken = maxHelloBytes ∨
        (up.closed = true ∧ up.taken = up.written.length))
    (hLe : up.taken ≤ up.written.length)
    (hMax : up.taken ≤ maxHelloBytes)
    (hHeard : Setup.heard up.line = some line) :
    Told setup up up.taken line := by
  have hLength : up.line.length = up.taken :=
    List.length_take_of_le hLe
  rw [Hello.bytes_eq, List.append_assoc, List.singleton_append]
    at hStream
  have hText : up.line <+: setup.hello.textBytes :=
    Utf8.take_prefix_line hStream hNone
  have hEnd' :
      up.taken = maxHelloBytes ∨
        (up.closed = true ∧ up.line = up.written) := by
    refine hEnd.imp_right (fun h => ⟨h.1, ?_⟩)
    exact List.take_of_length_le (Nat.le_of_eq h.2.symm)
  rcases Nat.lt_or_ge up.line.length
      setup.hello.textBytes.length with hShort | hFull
  · rw [Setup.heard] at hHeard
    split at hHeard
    · cases hHeard
    · rename_i hSome
      have hBytes := Utf8.encode_of_decode hHeard
      rcases hText with ⟨r, hr⟩
      rw [← hBytes] at hr
      rcases Utf8.prefix_of_encode hr with ⟨rest, hRest⟩
      refine .inr ⟨?_, ?_, rest, ?_, hRest⟩
      · rintro rfl
        exact hSome (hBytes.symm.trans rfl)
      · exact hEnd'.imp (fun h => by omega) And.left
      · rintro rfl
        rw [List.append_nil] at hRest
        rw [← hBytes, hRest] at hShort
        exact Nat.lt_irrefl _ hShort
  · have hAll : up.line = setup.hello.textBytes :=
      hText.eq_of_length_le hFull
    have hAt : up.taken = setup.hello.textBytes.length := by
      rw [← hAll, hLength]
    rw [hAll, Hello.heard_textBytes] at hHeard
    cases hHeard
    refine .inl ⟨Hello.trimChars_text _, hAt ▸ hMax, ?_,
      .inr ⟨hAt, ?_⟩⟩
    · exact hAll ▸ List.take_prefix _ _
    · rcases hEnd' with hLimit | ⟨hClosed, hEq⟩
      · exact .inl (by omega)
      · exact .inr ⟨hClosed, by rw [← hEq, hAll]⟩

/- A line that ended with its newline. -/
theorem of_newline
    {x : List UInt8}
    (hStream : up.written <+: setup.hello.bytes ++ x)
    (hNone : Utf8.newline ∉ up.line)
    (hByte : up.written[up.taken]? = some Utf8.newline)
    (hLimit : up.taken < maxHelloBytes)
    (hHeard : Setup.heard up.take.line = some line) :
    Told setup up.take up.take.taken line := by
  have hLine := hStream
  rw [Hello.bytes_eq, List.append_assoc, List.singleton_append]
    at hLine
  have hAt : up.taken = setup.hello.textBytes.length :=
    Utf8.length_of_newline hLine (newline_notMem _) hByte hNone
  have hLt := (List.getElem?_eq_some_iff.mp hByte).1
  have hBytes : setup.hello.bytes <+: up.written := by
    refine List.prefix_of_prefix_length_le
      (List.prefix_append _ x) hStream ?_
    rw [Hello.length_bytes]
    omega
  have hAll : up.take.line = setup.hello.bytes := by
    have hTake := List.prefix_iff_eq_take.mp hBytes
    rw [hTake, Hello.length_bytes, ← hAt]
    rfl
  rw [hAll, Hello.heard_bytes] at hHeard
  cases hHeard
  refine .inl ⟨Hello.trimChars_encode _, ?_, ?_,
    .inl ⟨by rw [← hAt]; rfl, hAt ▸ hLimit, hBytes⟩⟩
  · exact hAt ▸ Nat.le_of_lt hLimit
  · rw [Hello.bytes_eq] at hBytes
    exact (List.prefix_append _ _).trans hBytes

end Told

/- The daemon accepts this hello, once it is initialized. -/
structure Accepts (setup : Setup) : Prop where
  version : setup.hello.ferrexHello = protocolVersion
  key : setup.hello.key = setup.key
  size : setup.hello.textBytes.length ≤ maxHelloBytes

/-
  Why a daemon gives a reply, over a stream that its proxy
  has closed or not.
-/
inductive Reason
    (setup : Setup)
    (closed : Bool)
    (init : InitView) : HelloReply → Prop
| accept
    (hAccepts : Accepts setup)
    (hInit : init = .ready) :
    Reason setup closed init .accept
| init (error : String)
    (hInit : init = .failed error) :
    Reason setup closed init (.refuse .init error)
| version
    (hVersion :
      setup.hello.ferrexHello ≠ protocolVersion) :
    Reason setup closed init (Hello.protocol
      ("protocol version mismatch: proxy sent " ++
        toString setup.hello.ferrexHello ++
        ", daemon speaks " ++ toString protocolVersion))
| cut (message : String)
    (hCut :
      maxHelloBytes < setup.hello.textBytes.length ∨
        closed = true) :
    Reason setup closed init (Hello.protocol message)
| key
    (hKey : setup.hello.key ≠ setup.key) :
    Reason setup closed init (.refuse .key
      ("key mismatch: proxy sent " ++ setup.hello.key ++
        ", daemon is " ++ setup.key))
| session (e : String)
    (hAccepts : Accepts setup)
    (hInit : init = .ready) :
    Reason setup closed init (.refuse .session
      ("namespace " ++ setup.quoted setup.hello.namespace ++
        ": " ++ e))

namespace Reason

variable {setup : Setup} {closed : Bool}
variable {init : InitView} {reply : HelloReply}

/- A reason stays one when the pipe is closed. -/
theorem close
    (hReason : Reason setup closed init reply) :
    Reason setup true init reply := by
  cases hReason with
  | accept hAccepts hInit => exact .accept hAccepts hInit
  | init error hInit => exact .init error hInit
  | version hVersion => exact .version hVersion
  | cut message hCut => exact .cut message (.inr rfl)
  | key hKey => exact .key hKey
  | session e hAccepts hInit => exact .session e hAccepts hInit

/-
  A reason from before the initialization stays one after
  it.
-/
theorem settle
    (hReason : Reason setup closed .pending reply) :
    Reason setup closed init reply := by
  cases hReason with
  | accept _ hInit => cases hInit
  | init _ hInit => cases hInit
  | version hVersion => exact .version hVersion
  | cut message hCut => exact .cut message hCut
  | key hKey => exact .key hKey
  | session _ _ hInit => cases hInit

/- Only one of the reasons is for an acceptance. -/
theorem eq_accept
    (hReason : Reason setup closed init reply)
    (hOk : reply.ok = true) :
    reply = .accept := by
  cases hReason with
  | accept => rfl
  | _ => cases hOk

end Reason

section Accept

variable {setup : Setup} {up : Pipe}
variable {heard : Nat} {line : List Char}

/- The checks let no other hello pass, and none cut short. -/
theorem accept_eq_ok
    {hello : Hello}
    (hReads : setup.reader.Reads)
    (hVersion : setup.hello.ferrexHello < 2 ^ 32)
    (hTold : Told setup up heard line)
    (hAccept : setup.accept line = .ok hello) :
    hello = setup.hello ∧ Accepts setup ∧
      Whole setup.hello up heard := by
  rcases hTold with
    ⟨hText, hWhole⟩ | ⟨hSome, _, rest, hRest, hCut⟩
  · rw [Setup.accept, Hello.decode_of_text hReads hVersion hText,
      Hello.verdict] at hAccept
    split at hAccept
    · cases hAccept
    · rename_i hello' hVerdict
      split at hVerdict
      · rename_i hSpoken
        cases hVerdict
        rw [Hello.check] at hAccept
        split at hAccept
        · cases hAccept
        · rename_i hCheck
          split at hCheck
          · rename_i hKey
            cases hAccept
            exact ⟨rfl, ⟨hSpoken, hKey, hWhole.size⟩, hWhole⟩
          · cases hCheck
      · cases hVerdict
  · rcases Hello.decode_of_cut hReads hVersion hSome hRest hCut
      with ⟨message, hError⟩
    rw [Setup.accept, hError] at hAccept
    cases hAccept

/-
  A refusal by the check names what the hello really lacks.
-/
theorem accept_eq_error
    {reply : HelloReply}
    (init : InitView)
    (hReads : setup.reader.Reads)
    (hVersion : setup.hello.ferrexHello < 2 ^ 32)
    (hTold : Told setup up heard line)
    (hAccept : setup.accept line = .error reply) :
    Reason setup up.closed init reply := by
  rcases hTold with
    ⟨hText, hWhole⟩ | ⟨hSome, hEnd, rest, hRest, hCut⟩
  · rw [Setup.accept, Hello.decode_of_text hReads hVersion hText,
      Hello.verdict] at hAccept
    split at hAccept
    · rename_i hVerdict
      cases hAccept
      split at hVerdict
      · cases hVerdict
      · rename_i hSpoken
        cases hVerdict
        exact .version hSpoken
    · rename_i hello' hVerdict
      split at hVerdict
      · cases hVerdict
        rw [Hello.check] at hAccept
        split at hAccept
        · rename_i hCheck
          cases hAccept
          split at hCheck
          · cases hCheck
          · rename_i hKey
            cases hCheck
            exact .key hKey
        · cases hAccept
      · cases hVerdict
  · rcases Hello.decode_of_cut hReads hVersion hSome hRest hCut
      with ⟨message, hError⟩
    rw [Setup.accept, hError] at hAccept
    cases hAccept
    exact .cut message hEnd

end Accept

------------------------------------------------------------
-- What the Proxy Makes of the Reply
------------------------------------------------------------

/- A reply that ended without its newline is no refusal. -/
theorem kind_of_answer_end
    {bs : List UInt8}
    (setup : Setup)
    (hNone : Utf8.newline ∉ bs) :
    ∃ e, setup.answer bs = .error e ∧ e.kind = none := by
  rw [Setup.answer]
  split
  · exact ⟨_, rfl, rfl⟩
  · split
    · exact ⟨_, rfl, rfl⟩
    · rename_i text hText
      have hLast : text.getLast? ≠ some '\n' := by
        intro hEnd
        have hMem := List.mem_of_getLast? hEnd
        rw [← Utf8.newline_mem_encode_iff,
          Utf8.encode_of_decode hText] at hMem
        exact hNone hMem
      rw [if_pos hLast]
      exact ⟨_, rfl, rfl⟩

/- A reply that was read in full is what the daemon meant. -/
theorem answer_bytes
    {setup : Setup}
    (hReads : setup.reader.Reads)
    (reply : HelloReply) :
    setup.answer reply.bytes =
      if reply.ok then .ok () else .error (Setup.refused reply) := by
  have hSome : reply.bytes ≠ [] := by
    intro hNil
    have hLength := reply.length_bytes
    rw [hNil] at hLength
    cases hLength
  have hText : Utf8.decode reply.bytes = some reply.encode :=
    Utf8.decode_encode _
  have hLast : reply.encode.getLast? = some '\n' :=
    List.getLast?_concat
  rw [Setup.answer, if_neg hSome, hText]
  simp only [hLast, ne_eq, not_true, if_false,
    HelloReply.decode_encode hReads]

/- The newline is found where the reply ends. -/
theorem answer_of_newline
    {down : Pipe} {reply : HelloReply} {x : List UInt8}
    (setup : Setup)
    (hReads : setup.reader.Reads)
    (hStream : down.written <+: reply.bytes ++ x)
    (hNone : Utf8.newline ∉ down.line)
    (hByte : down.written[down.taken]? = some Utf8.newline) :
    down.take.taken = reply.bytes.length ∧
      setup.answer down.take.line =
        if reply.ok then
          .ok ()
        else
          .error (Setup.refused reply) := by
  have hLine := hStream
  rw [HelloReply.bytes, HelloReply.encode, encode_line,
    List.append_assoc, List.singleton_append] at hLine
  have hAt : down.taken = (Utf8.encode reply.text).length :=
    Utf8.length_of_newline hLine (newline_notMem _) hByte hNone
  have hTaken : down.take.taken = reply.bytes.length := by
    rw [HelloReply.length_bytes, ← hAt]
    rfl
  have hLt := (List.getElem?_eq_some_iff.mp hByte).1
  have hBytes : reply.bytes <+: down.written := by
    refine List.prefix_of_prefix_length_le
      (List.prefix_append _ x) hStream ?_
    rw [HelloReply.length_bytes]
    omega
  have hAll : down.take.line = reply.bytes := by
    rw [List.prefix_iff_eq_take.mp hBytes, ← hTaken]
    rfl
  rw [hAll]
  exact ⟨hTaken, answer_bytes hReads reply⟩

end Handshake

end Daemon

end Ferrex
