import Ferrex.Daemon.Handshake
import Ferrex.Lib.Transition
import Ferrex.Lib.Utf8

/-
  The handshake of a proxy with the daemon it is connected
  to, over a stream whose bytes come in pieces of any size:
  either side can fail, run out of time or go away at any
  step.

  Main declarations:
    * `Pipe`, `Exchange`, `Exchange.next`, `machine`
    * `Setup.answer`, `Setup.heard`
    * `Move`, `Exchange.next_eq_some`
-/

------------------------------------------------------------
-- State
------------------------------------------------------------

namespace Ferrex

namespace Daemon

namespace Handshake

open Spawn (RefusalKind AttemptError)

/- One direction of a stream, as far as it has been read. -/
structure Pipe where
  written : List UInt8
  taken : Nat
  closed : Bool
deriving DecidableEq

namespace Pipe

/- Nothing has been written or read. -/
def empty : Pipe := ⟨[], 0, false⟩

/- What the reader has taken so far. -/
def line (p : Pipe) : List UInt8 := p.written.take p.taken

/- What it could still take. -/
def unread (p : Pipe) : List UInt8 := p.written.drop p.taken

/- The writer adds to the end. -/
def write (p : Pipe) (bs : List UInt8) : Pipe :=
  { p with written := p.written ++ bs }

/- The reader takes one byte. -/
def take (p : Pipe) : Pipe := { p with taken := p.taken + 1 }

/- The writer is gone; what it wrote can still be read. -/
def close (p : Pipe) : Pipe := { p with closed := true }

end Pipe

/- How far a daemon is with its start. -/
inductive InitView where
| pending
| ready
| failed (error : String)
deriving DecidableEq

/- The proxy in `send_hello`, and after it. -/
inductive ProxyStage where
| sending
| reading
| connected
| failed (e : AttemptError)
| gone
deriving DecidableEq

/- The daemon in `serve_connection`. -/
inductive DaemonStage where
| reading
| waiting (line : List Char)
| ensuring (hello : Hello)
| replying (reply : HelloReply)
| serving
| closed
deriving DecidableEq

/-
  The two sides and what is between them.  `heard` counts the
  bytes that the daemon has read as the hello; `reply` is what
  it has decided, with the namespace that it has accepted;
  `sent` and `served` are what either side writes after its
  part of the handshake.
-/
structure Exchange where
  proxy : ProxyStage
  daemon : DaemonStage
  up : Pipe
  down : Pipe
  init : InitView
  heard : Nat
  reply : Option HelloReply
  session : Option String
  sent : List UInt8
  served : List UInt8

/- The state after the connect. -/
def Exchange.start : Exchange where
  proxy := .sending
  daemon := .reading
  up := .empty
  down := .empty
  init := .pending
  heard := 0
  reply := none
  session := none
  sent := []
  served := []

/-
  The hello, the daemon's key, the proxy's budget, and how
  debug output quotes a string.
-/
structure Setup where
  reader : Reader
  hello : Hello
  key : String
  budget : String
  quoted : String → String

------------------------------------------------------------
-- What Each Side Makes of a Line
------------------------------------------------------------

/- A longer hello is not read to its end. -/
def maxHelloBytes : Nat := 64 * 1024

/- The bytes of a line. -/
def HelloReply.bytes (reply : HelloReply) : List UInt8 :=
  Utf8.encode reply.encode

/- The hello as it is written. -/
def Hello.bytes (hello : Hello) : List UInt8 :=
  Utf8.encode hello.encode

namespace Setup

/-
  An attempt that ends without an answer may be made again.
-/
def failed (text : String) : AttemptError :=
  .ofRetryable ("hello exchange failed: " ++ text)

/- The error that a refusal becomes. -/
def refused (reply : HelloReply) : AttemptError :=
  let kind := reply.kind.getD .protocol
  { kind := some kind
    retryable := kind = .key ∨ kind = .session
    childExitedEarly := false
    message :=
      "daemon refused the hello (" ++ debugName kind ++ "): " ++
        reply.error.getD "no reason given" }

/- What the proxy makes of the line that it has read. -/
def answer
    (setup : Setup)
    (line : List UInt8) : Except AttemptError Unit :=
  if line = [] then
    .error (.ofRetryable
      "daemon closed the connection before replying to the hello")
  else
    match Utf8.decode line with
    | none =>
        .error (failed "stream did not contain valid UTF-8")
    | some text =>
        if text.getLast? ≠ some '\n' then
          .error (.ofRetryable
            "daemon closed the connection mid-reply to the hello")
        else
          match HelloReply.decode setup.reader text with
          | .error message =>
              .error ⟨some .protocol, false, false, message⟩
          | .ok reply =>
              if reply.ok then
                .ok ()
              else
                .error (refused reply)

/- What the daemon makes of the line that it has read. -/
def heard (line : List UInt8) : Option (List Char) :=
  if line = [] then none else Utf8.decode line

/- The checks of a hello, before its collection. -/
def accept
    (setup : Setup)
    (line : List Char) : Except HelloReply Hello :=
  match Hello.decode setup.reader line with
  | .error reply => .error reply
  | .ok hello =>
      match hello.check setup.key with
      | .error reply => .error reply
      | .ok () => .ok hello

end Setup

------------------------------------------------------------
-- Steps
------------------------------------------------------------

/-
  A byte arrives or a side finds the stream ended; a piece is
  written; the calls around the stream come to their ends.
-/
inductive Event where
| proxyWrite (n : Nat)
| proxyError (text : String)
| proxyTimeout
| proxyRead
| proxyEof
| proxyDrop
| proxySend (bs : List UInt8)
| settle (error : Option String)
| daemonRead
| daemonEof
| daemonInit
| daemonEnsure (error : Option String)
| daemonWrite (n : Nat)
| daemonSend (bs : List UInt8)
| daemonTake
| daemonStop

namespace Exchange

/- The proxy's call is over, without a connection. -/
def proxyFail (s : Exchange) (e : AttemptError) : Exchange :=
  { s with proxy := .failed e, up := s.up.close }

/- The proxy has read its line. -/
def proxyEnd (setup : Setup) (s : Exchange) : Exchange :=
  match setup.answer s.down.line with
  | .error e => s.proxyFail e
  | .ok () => { s with proxy := .connected }

/-
  The daemon closes its end, and so the proxy reads no more.
-/
def daemonClose (s : Exchange) : Exchange :=
  { s with daemon := .closed, down := s.down.close }

/- The daemon has read its line. -/
def daemonEnd (s : Exchange) : Exchange :=
  match Setup.heard s.up.line with
  | none => s.daemonClose
  | some line =>
      { s with daemon := .waiting line, heard := s.up.taken }

/- The daemon has decided what to answer. -/
def replyWith (s : Exchange) (reply : HelloReply) : Exchange :=
  { s with daemon := .replying reply, reply := some reply }

/-
  The next step of the proxy, with what the system gives it.
-/
def proxyNext
    (setup : Setup)
    (s : Exchange) : Event → Option Exchange
| .proxyWrite n =>
    let rest := setup.hello.bytes.drop s.up.written.length
    if s.proxy = .sending ∧ 0 < n ∧ n ≤ rest.length then
      some { s with
        up := s.up.write (rest.take n)
        proxy := if n = rest.length then .reading else .sending }
    else
      none
| .proxyError text =>
    if s.proxy = .sending ∨ s.proxy = .reading then
      some (s.proxyFail (Setup.failed text))
    else
      none
| .proxyTimeout =>
    if s.proxy = .sending ∨ s.proxy = .reading then
      some (s.proxyFail (.fatal
        ("daemon did not answer the hello within " ++
          setup.budget)))
    else
      none
| .proxyRead =>
    match s.proxy, s.down.written[s.down.taken]? with
    | .reading, some b =>
        let s := { s with down := s.down.take }
        if b = Utf8.newline then
          some (s.proxyEnd setup)
        else
          some s
    | _, _ => none
| .proxyEof =>
    if s.proxy = .reading ∧ s.down.closed = true ∧
        s.down.taken = s.down.written.length then
      some (s.proxyEnd setup)
    else
      none
| .proxyDrop =>
    some { s with proxy := .gone, up := s.up.close }
| .proxySend bs =>
    if s.proxy = .connected then
      some { s with up := s.up.write bs, sent := s.sent ++ bs }
    else
      none
| _ => none

/- The next step of the daemon. -/
def daemonNext
    (setup : Setup)
    (s : Exchange) : Event → Option Exchange
| .settle error =>
    match s.init with
    | .pending =>
        some { s with
          init :=
            match error with
            | none => .ready
            | some e => .failed e }
    | _ => none
| .daemonRead =>
    match s.daemon, s.up.written[s.up.taken]? with
    | .reading, some b =>
        if s.up.taken < maxHelloBytes then
          let s := { s with up := s.up.take }
          if b = Utf8.newline then
            some s.daemonEnd
          else
            some s
        else
          none
    | _, _ => none
| .daemonEof =>
    -- The limit is read as the end of the stream.
    if s.daemon = .reading ∧
        (s.up.taken = maxHelloBytes ∨
          (s.up.closed = true ∧
            s.up.taken = s.up.written.length)) then
      some s.daemonEnd
    else
      none
| .daemonInit =>
    match s.daemon, s.init with
    | .waiting _, .failed error =>
        some (s.replyWith (.refuse .init error))
    | .waiting line, .ready =>
        match setup.accept line with
        | .error reply => some (s.replyWith reply)
        | .ok hello => some { s with daemon := .ensuring hello }
    | _, _ => none
| .daemonEnsure error =>
    match s.daemon with
    | .ensuring hello =>
        match error with
        | some e =>
            some (s.replyWith (.refuse .session
              ("namespace " ++ setup.quoted hello.namespace ++
                ": " ++ e)))
        | none =>
            some { s.replyWith .accept with
              session := some hello.namespace }
    | _ => none
| .daemonWrite n =>
    match s.daemon with
    | .replying reply =>
        let rest := reply.bytes.drop s.down.written.length
        if 0 < n ∧ n ≤ rest.length then
          let s := { s with down := s.down.write (rest.take n) }
          if n < rest.length then
            some s
          else if reply.ok then
            some { s with daemon := .serving }
          else
            some s.daemonClose
        else
          none
    | _ => none
| .daemonSend bs =>
    if s.daemon = .serving then
      some { s with
        down := s.down.write bs
        served := s.served ++ bs }
    else
      none
| .daemonTake =>
    if s.daemon = .serving ∧
        s.up.taken < s.up.written.length then
      some { s with up := s.up.take }
    else
      none
| .daemonStop => some s.daemonClose
| _ => none

/- One of the two takes a step. -/
def next
    (setup : Setup)
    (s : Exchange)
    (e : Event) : Option Exchange :=
  (s.proxyNext setup e).or (s.daemonNext setup e)

end Exchange

/- One connection, in any order of steps. -/
def machine (setup : Setup) : Machine Exchange Event :=
  .ofNext (fun s => s = .start) (Exchange.next setup)

------------------------------------------------------------
-- Moves
------------------------------------------------------------

/-
  The ways in which the handshake goes on.  A line ends with
  its newline, or where the stream or the limit ends.
-/
inductive Move (setup : Setup) (s : Exchange) : Exchange → Prop
| proxyWrite (n : Nat)
    (hStage : s.proxy = .sending)
    (hPos : 0 < n)
    (hLe :
      n ≤ (setup.hello.bytes.drop s.up.written.length).length) :
    Move setup s { s with
      up := s.up.write
        ((setup.hello.bytes.drop s.up.written.length).take n)
      proxy :=
        if n = (setup.hello.bytes.drop
            s.up.written.length).length then
          .reading
        else
          .sending }
| proxyFail (e : AttemptError)
    (hStage : s.proxy = .sending ∨ s.proxy = .reading)
    (hKind : e.kind = none) :
    Move setup s (s.proxyFail e)
| proxyRead (b : UInt8)
    (hStage : s.proxy = .reading)
    (hByte : s.down.written[s.down.taken]? = some b)
    (hNot : b ≠ Utf8.newline) :
    Move setup s { s with down := s.down.take }
| proxyLine
    (hStage : s.proxy = .reading)
    (hByte :
      s.down.written[s.down.taken]? = some Utf8.newline) :
    Move setup s
      (Exchange.proxyEnd setup { s with down := s.down.take })
| proxyEof
    (hStage : s.proxy = .reading)
    (hTaken : s.down.taken = s.down.written.length) :
    Move setup s (s.proxyEnd setup)
| proxyDrop :
    Move setup s { s with proxy := .gone, up := s.up.close }
| proxySend (bs : List UInt8)
    (hStage : s.proxy = .connected) :
    Move setup s
      { s with up := s.up.write bs, sent := s.sent ++ bs }
| settle (view : InitView)
    (hPending : s.init = .pending) :
    Move setup s { s with init := view }
| daemonRead (b : UInt8)
    (hStage : s.daemon = .reading)
    (hByte : s.up.written[s.up.taken]? = some b)
    (hLimit : s.up.taken < maxHelloBytes)
    (hNot : b ≠ Utf8.newline) :
    Move setup s { s with up := s.up.take }
| daemonLine
    (hStage : s.daemon = .reading)
    (hByte : s.up.written[s.up.taken]? = some Utf8.newline)
    (hLimit : s.up.taken < maxHelloBytes) :
    Move setup s
      (Exchange.daemonEnd { s with up := s.up.take })
| daemonEof
    (hStage : s.daemon = .reading)
    (hEnd :
      s.up.taken = maxHelloBytes ∨
        (s.up.closed = true ∧
          s.up.taken = s.up.written.length)) :
    Move setup s s.daemonEnd
| initFailed (line : List Char) (error : String)
    (hStage : s.daemon = .waiting line)
    (hInit : s.init = .failed error) :
    Move setup s (s.replyWith (.refuse .init error))
| refuse (line : List Char) (reply : HelloReply)
    (hStage : s.daemon = .waiting line)
    (hInit : s.init = .ready)
    (hAccept : setup.accept line = .error reply) :
    Move setup s (s.replyWith reply)
| accept (line : List Char) (hello : Hello)
    (hStage : s.daemon = .waiting line)
    (hInit : s.init = .ready)
    (hAccept : setup.accept line = .ok hello) :
    Move setup s { s with daemon := .ensuring hello }
| notEnsured (hello : Hello) (e : String)
    (hStage : s.daemon = .ensuring hello) :
    Move setup s (s.replyWith (.refuse .session
      ("namespace " ++ setup.quoted hello.namespace ++ ": " ++
        e)))
| ensured (hello : Hello)
    (hStage : s.daemon = .ensuring hello) :
    Move setup s { s.replyWith .accept with
      session := some hello.namespace }
| daemonWrite (reply : HelloReply) (n : Nat)
    (hStage : s.daemon = .replying reply)
    (hLt :
      n < (reply.bytes.drop s.down.written.length).length) :
    Move setup s { s with
      down := s.down.write
        ((reply.bytes.drop s.down.written.length).take n) }
| daemonReplied (reply : HelloReply)
    (hStage : s.daemon = .replying reply)
    (hOk : reply.ok = true) :
    Move setup s { s with
      down := s.down.write
        (reply.bytes.drop s.down.written.length)
      daemon := .serving }
| daemonRefused (reply : HelloReply)
    (hStage : s.daemon = .replying reply) :
    Move setup s (Exchange.daemonClose { s with
      down := s.down.write
        (reply.bytes.drop s.down.written.length) })
| daemonSend (bs : List UInt8)
    (hStage : s.daemon = .serving) :
    Move setup s { s with
      down := s.down.write bs
      served := s.served ++ bs }
| daemonTake
    (hStage : s.daemon = .serving)
    (hLt : s.up.taken < s.up.written.length) :
    Move setup s { s with up := s.up.take }
| daemonStop : Move setup s s.daemonClose

namespace Exchange

variable {setup : Setup} {s t : Exchange} {e : Event}

/- The steps of the proxy are moves. -/
private theorem move_of_proxyNext
    (h : s.proxyNext setup e = some t) :
    Move setup s t := by
  cases e with
  | proxyWrite n =>
      simp only [proxyNext] at h
      split at h
      · rename_i hAll
        cases h
        exact .proxyWrite n hAll.1 hAll.2.1 hAll.2.2
      · cases h
  | proxyError text =>
      simp only [proxyNext] at h
      split at h
      · rename_i hStage
        cases h
        exact .proxyFail _ hStage rfl
      · cases h
  | proxyTimeout =>
      simp only [proxyNext] at h
      split at h
      · rename_i hStage
        cases h
        exact .proxyFail _ hStage rfl
      · cases h
  | proxyRead =>
      simp only [proxyNext] at h
      split at h
      · rename_i b hStage hByte
        split at h
        · rename_i hNewline
          cases h
          exact .proxyLine hStage (hNewline ▸ hByte)
        · rename_i hNot
          cases h
          exact .proxyRead b hStage hByte hNot
      · cases h
  | proxyEof =>
      simp only [proxyNext] at h
      split at h
      · rename_i hAll
        cases h
        exact .proxyEof hAll.1 hAll.2.2
      · cases h
  | proxyDrop =>
      cases h
      exact .proxyDrop
  | proxySend bs =>
      simp only [proxyNext] at h
      split at h
      · rename_i hStage
        cases h
        exact .proxySend bs hStage
      · cases h
  | _ => cases h

/- The steps of the daemon are moves. -/
private theorem move_of_daemonNext
    (h : s.daemonNext setup e = some t) :
    Move setup s t := by
  cases e with
  | settle error =>
      simp only [daemonNext] at h
      split at h
      · rename_i hPending
        cases h
        exact .settle _ hPending
      · cases h
  | daemonRead =>
      simp only [daemonNext] at h
      split at h
      · rename_i b hStage hByte
        split at h
        · rename_i hLimit
          split at h
          · rename_i hNewline
            cases h
            exact .daemonLine hStage (hNewline ▸ hByte) hLimit
          · rename_i hNot
            cases h
            exact .daemonRead b hStage hByte hLimit hNot
        · cases h
      · cases h
  | daemonEof =>
      simp only [daemonNext] at h
      split at h
      · rename_i hAll
        cases h
        exact .daemonEof hAll.1 hAll.2
      · cases h
  | daemonInit =>
      simp only [daemonNext] at h
      split at h
      · rename_i line error hStage hInit
        cases h
        exact .initFailed line error hStage hInit
      · rename_i line hStage hInit
        split at h
        · rename_i reply hAccept
          cases h
          exact .refuse line reply hStage hInit hAccept
        · rename_i hello hAccept
          cases h
          exact .accept line hello hStage hInit hAccept
      · cases h
  | daemonEnsure error =>
      simp only [daemonNext] at h
      split at h
      · rename_i hello hStage
        split at h
        · cases h
          exact .notEnsured hello _ hStage
        · cases h
          exact .ensured hello hStage
      · cases h
  | daemonWrite n =>
      simp only [daemonNext] at h
      split at h
      · rename_i reply hStage
        split at h
        · rename_i hAll
          split at h
          · rename_i hLt
            cases h
            exact .daemonWrite reply n hStage hLt
          · rename_i hAllOfIt
            have hTake :
                (reply.bytes.drop s.down.written.length).take n =
                  reply.bytes.drop s.down.written.length :=
              List.take_of_length_le (Nat.not_lt.mp hAllOfIt)
            rw [hTake] at h
            split at h
            · rename_i hOk
              cases h
              exact .daemonReplied reply hStage hOk
            · cases h
              exact .daemonRefused reply hStage
        · cases h
      · cases h
  | daemonSend bs =>
      simp only [daemonNext] at h
      split at h
      · rename_i hStage
        cases h
        exact .daemonSend bs hStage
      · cases h
  | daemonTake =>
      simp only [daemonNext] at h
      split at h
      · rename_i hAll
        cases h
        exact .daemonTake hAll.1 hAll.2
      · cases h
  | daemonStop =>
      cases h
      exact .daemonStop
  | _ => cases h

/- All steps are moves. -/
theorem next_eq_some
    (h : s.next setup e = some t) :
    Move setup s t := by
  rcases Option.or_eq_some_iff.mp h with hProxy | ⟨_, hDaemon⟩
  · exact move_of_proxyNext hProxy
  · exact move_of_daemonNext hDaemon

end Exchange

end Handshake

end Daemon

end Ferrex
