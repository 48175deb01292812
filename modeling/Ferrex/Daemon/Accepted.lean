import Ferrex.Daemon.Heard

/-
  The handshake over whole runs: what has been written, what
  each side is at, and why.  A proxy that is connected has
  been accepted, one that reports a refusal has been refused
  for a reason that holds, and the session begins where the
  handshake ends.

  Main declarations:
    * `UpInv`, `DownInv`, `DaemonInv`, `ProxyInv`
    * `connected_accepted`, `refused_with_reason`
    * `session_aligned`
-/

------------------------------------------------------------
-- Invariants
------------------------------------------------------------

namespace Ferrex

namespace Daemon

namespace Handshake

open Spawn (RefusalKind AttemptError)

/- The proxy has not given up on the connection. -/
def ProxyStage.Live (stage : ProxyStage) : Prop :=
  stage = .sending ∨ stage = .reading ∨ stage = .connected

/- What has been written is a hello, and what follows it. -/
structure UpInv (setup : Setup) (s : Exchange) : Prop where
  bound : s.up.taken ≤ s.up.written.length
  stream : s.up.written <+: setup.hello.bytes ++ s.sent
  sending : s.proxy = .sending → s.sent = []
  past :
    s.proxy = .reading ∨ s.proxy = .connected →
      s.up.written = setup.hello.bytes ++ s.sent
  opened : s.proxy.Live → s.up.closed = false
  sent :
    s.sent = [] ∨
      s.up.written = setup.hello.bytes ++ s.sent

/- What has been written is the reply, and what follows it. -/
structure DownInv (s : Exchange) : Prop where
  bound : s.down.taken ≤ s.down.written.length
  quiet : s.reply = none → s.down.written = [] ∧ s.served = []
  stream :
    ∀ reply, s.reply = some reply →
      s.down.written <+: reply.bytes ++ s.served
  replying :
    ∀ reply, s.daemon = .replying reply →
      s.reply = some reply ∧ s.served = []
  serving :
    s.daemon = .serving →
      s.reply = some .accept ∧
        s.down.written = HelloReply.accept.bytes ++ s.served
  served :
    s.served = [] ∨
      (s.reply = some .accept ∧
        s.down.written = HelloReply.accept.bytes ++ s.served)

/- What the daemon is at, and why it has replied. -/
structure DaemonInv (setup : Setup) (s : Exchange) : Prop where
  reading :
    s.daemon = .reading →
      s.reply = none ∧ s.up.taken ≤ maxHelloBytes ∧
        Utf8.newline ∉ s.up.line
  waiting :
    ∀ line, s.daemon = .waiting line →
      s.reply = none ∧ Told setup s.up s.heard line
  ensuring :
    ∀ hello, s.daemon = .ensuring hello →
      s.reply = none ∧ hello = setup.hello ∧
        Accepts setup ∧ s.init = .ready ∧
          Whole setup.hello s.up s.heard
  reason :
    ∀ reply, s.reply = some reply →
      Reason setup s.up.closed s.init reply
  session :
    s.reply = some .accept →
      s.session = some setup.hello.namespace ∧
        Whole setup.hello s.up s.heard

/- What the proxy is at, and why it has failed. -/
structure ProxyInv (setup : Setup) (s : Exchange) : Prop where
  listening :
    s.proxy = .sending ∨ s.proxy = .reading →
      Utf8.newline ∉ s.down.line
  connected :
    s.proxy = .connected →
      s.reply = some .accept ∧
        s.down.taken = HelloReply.accept.bytes.length
  failed :
    ∀ e, s.proxy = .failed e → e.kind ≠ none →
      ∃ reply, s.reply = some reply ∧
        reply.ok = false ∧ e = Setup.refused reply ∧
          Reason setup false s.init reply

/- What is known of the two pipes and of the two ends. -/
structure Exchange.Inv
    (setup : Setup)
    (s : Exchange) : Prop where
  up : UpInv setup s
  down : DownInv s
  daemon : DaemonInv setup s
  proxy : ProxyInv setup s

section Steps

variable {setup : Setup} {s t : Exchange}

/- The daemon either closes or goes on with the hello. -/
theorem Exchange.daemonEnd_eq (s : Exchange) :
    s.daemonEnd = s.daemonClose ∨
      ∃ line, Setup.heard s.up.line = some line ∧
        s.daemonEnd = { s with
          daemon := .waiting line, heard := s.up.taken } := by
  rw [Exchange.daemonEnd]
  cases hHeard : Setup.heard s.up.line with
  | none => exact .inl rfl
  | some line => exact .inr ⟨line, rfl, rfl⟩

/-
  The proxy either is connected or gives up with an error.
-/
theorem Exchange.proxyEnd_eq
    (setup : Setup)
    (s : Exchange) :
    (setup.answer s.down.line = .ok () ∧
      s.proxyEnd setup = { s with proxy := .connected }) ∨
    ∃ e, setup.answer s.down.line = .error e ∧
      s.proxyEnd setup = s.proxyFail e := by
  rw [Exchange.proxyEnd]
  cases hAnswer : setup.answer s.down.line with
  | error e => exact .inr ⟨e, rfl, rfl⟩
  | ok u => exact .inl ⟨rfl, rfl⟩

/- What is written later is not in the line taken. -/
theorem Pipe.line_write
    {p : Pipe}
    (hBound : p.taken ≤ p.written.length)
    (bs : List UInt8) :
    (p.write bs).line = p.line :=
  List.take_append_of_le_length hBound

/- Any other byte leaves the line without its end. -/
theorem Pipe.newline_notMem_take
    {p : Pipe} {b : UInt8}
    (hNone : Utf8.newline ∉ p.line)
    (hByte : p.written[p.taken]? = some b)
    (hNot : b ≠ Utf8.newline) :
    Utf8.newline ∉ p.take.line := by
  have hLine : p.take.line = p.line ++ [b] := by
    rw [Pipe.line, Pipe.line, Pipe.take, List.take_add_one,
      hByte]
    rfl
  rw [hLine, List.mem_append, List.mem_singleton]
  rintro (hOld | hNew)
  · exact hNone hOld
  · exact hNot hNew.symm

/- A proxy that gives up writes no more. -/
theorem UpInv.close
    (hUp : UpInv setup s)
    (hProxy : ¬ t.proxy.Live)
    (hWritten : t.up.written = s.up.written)
    (hTaken : t.up.taken = s.up.taken)
    (hSent : t.sent = s.sent) :
    UpInv setup t where
  bound := by
    rw [hWritten, hTaken]
    exact hUp.bound
  stream := by
    rw [hWritten, hSent]
    exact hUp.stream
  sending h := absurd (.inl h) hProxy
  past h := absurd (.inr h) hProxy
  opened h := absurd h hProxy
  sent := by
    rw [hWritten, hSent]
    exact hUp.sent

/- A proxy that is connected has sent its hello. -/
theorem UpInv.connect
    (hUp : UpInv setup s)
    (hStage : s.proxy = .reading) :
    UpInv setup { s with proxy := .connected } where
  bound := hUp.bound
  stream := hUp.stream
  sending h := nomatch h
  past _ := hUp.past (.inl hStage)
  opened _ := hUp.opened (.inr (.inl hStage))
  sent := hUp.sent

/- Either way the proxy has read the reply. -/
theorem UpInv.proxyEnd
    (hUp : UpInv setup s)
    (hStage : s.proxy = .reading) :
    UpInv setup (s.proxyEnd setup) := by
  rcases s.proxyEnd_eq setup with ⟨_, hEq⟩ | ⟨e, _, hEq⟩
  · rw [hEq]
    exact hUp.connect hStage
  · rw [hEq]
    exact hUp.close (by simp [Exchange.proxyFail, ProxyStage.Live])
      rfl rfl rfl

/- The daemon only reads. -/
theorem UpInv.taken
    (hUp : UpInv setup s)
    (hProxy : t.proxy = s.proxy)
    (hWritten : t.up.written = s.up.written)
    (hClosed : t.up.closed = s.up.closed)
    (hSent : t.sent = s.sent)
    (hBound : t.up.taken ≤ s.up.written.length) :
    UpInv setup t where
  bound := by
    rw [hWritten]
    exact hBound
  stream := by
    rw [hWritten, hSent]
    exact hUp.stream
  sending := by
    rw [hProxy, hSent]
    exact hUp.sending
  past := by
    rw [hProxy, hWritten, hSent]
    exact hUp.past
  opened := by
    rw [hProxy, hClosed]
    exact hUp.opened
  sent := by
    rw [hWritten, hSent]
    exact hUp.sent

/- The daemon does not write to this pipe. -/
theorem UpInv.daemonEnd
    (hUp : UpInv setup s) :
    UpInv setup s.daemonEnd := by
  rcases s.daemonEnd_eq with hEq | ⟨line, _, hEq⟩ <;> rw [hEq]
  · exact hUp.taken rfl rfl rfl rfl hUp.bound
  · exact hUp.taken rfl rfl rfl rfl hUp.bound

/- The hello and the session are what the proxy wrote. -/
theorem UpInv.step
    (hUp : UpInv setup s)
    (hMove : Move setup s t) :
    UpInv setup t := by
  have hTake :
      ∀ b, s.up.written[s.up.taken]? = some b →
        s.up.take.taken ≤ s.up.written.length := by
    intro b hByte
    exact (List.getElem?_eq_some_iff.mp hByte).1
  cases hMove with
  | proxyWrite n hStage hPos hLe =>
      have hNone := hUp.sending hStage
      have hOpen := hUp.opened (.inl hStage)
      have hStream := hUp.stream
      rw [hNone, List.append_nil] at hStream
      have hWritten :
          s.up.written ++
              (setup.hello.bytes.drop s.up.written.length).take
                n =
            setup.hello.bytes.take (s.up.written.length + n) := by
        rw [List.take_add, ← List.prefix_iff_eq_take.mp hStream]
      have hNew :
          s.up.written ++
              (setup.hello.bytes.drop s.up.written.length).take
                n <+:
            setup.hello.bytes := by
        rw [hWritten]
        exact List.take_prefix _ _
      refine ⟨?_, ?_, fun _ => hNone, ?_, fun _ => hOpen,
        .inl hNone⟩
      · simp only [Pipe.write, List.length_append]
        exact Nat.le_add_right_of_le hUp.bound
      · simp only [Pipe.write, hNone, List.append_nil]
        exact hNew
      · intro hPast
        simp only [Pipe.write, hNone, List.append_nil]
        rw [hWritten]
        refine List.take_of_length_le ?_
        split at hPast
        · rename_i hAll
          rw [List.length_drop] at hAll
          omega
        · rcases hPast with h | h <;> cases h
  | proxyFail e hStage hKind =>
      exact hUp.close
        (by simp [Exchange.proxyFail, ProxyStage.Live])
        rfl rfl rfl
  | proxyRead b hStage hByte hNot =>
      exact hUp.taken rfl rfl rfl rfl hUp.bound
  | proxyLine hStage hByte =>
      exact UpInv.proxyEnd
        (hUp.taken rfl rfl rfl rfl hUp.bound) hStage
  | proxyEof hStage hTaken => exact hUp.proxyEnd hStage
  | proxyDrop =>
      exact hUp.close (by simp [ProxyStage.Live]) rfl rfl rfl
  | proxySend bs hStage =>
      have hPast := hUp.past (.inr hStage)
      have hWritten :
          s.up.written ++ bs =
            setup.hello.bytes ++ (s.sent ++ bs) := by
        rw [hPast, List.append_assoc]
      refine ⟨?_, ?_, ?_, fun _ => hWritten,
        fun _ => hUp.opened (.inr (.inr hStage)),
        .inr hWritten⟩
      · simp only [Pipe.write, List.length_append]
        exact Nat.le_add_right_of_le hUp.bound
      · simp only [Pipe.write, hWritten]
        exact List.prefix_rfl
      · intro h
        rw [hStage] at h
        cases h
  | daemonRead b hStage hByte hLimit hNot =>
      exact hUp.taken rfl rfl rfl rfl (hTake b hByte)
  | daemonLine hStage hByte hLimit =>
      exact UpInv.daemonEnd
        (hUp.taken rfl rfl rfl rfl (hTake _ hByte))
  | daemonEof hStage hEnd => exact hUp.daemonEnd
  | daemonTake hStage hLt =>
      exact hUp.taken rfl rfl rfl rfl hLt
  | _ => exact hUp.taken rfl rfl rfl rfl hUp.bound

/- The proxy only reads, or the daemon goes on or away. -/
theorem DownInv.taken
    (hDown : DownInv s)
    (hWritten : t.down.written = s.down.written)
    (hReply : t.reply = s.reply)
    (hServed : t.served = s.served)
    (hBound : t.down.taken ≤ s.down.written.length)
    (hReplying :
      ∀ reply, t.daemon = .replying reply →
        s.daemon = .replying reply)
    (hServing : t.daemon = .serving → s.daemon = .serving) :
    DownInv t where
  bound := by
    rw [hWritten]
    exact hBound
  quiet := by
    rw [hWritten, hReply, hServed]
    exact hDown.quiet
  stream := by
    rw [hWritten, hReply, hServed]
    exact hDown.stream
  replying reply h := by
    rw [hReply, hServed]
    exact hDown.replying reply (hReplying reply h)
  serving h := by
    rw [hReply, hServed, hWritten]
    exact hDown.serving (hServing h)
  served := by
    rw [hReply, hServed, hWritten]
    exact hDown.served

/- The proxy does not write to this pipe. -/
theorem DownInv.proxyEnd
    (hDown : DownInv s) :
    DownInv (s.proxyEnd setup) := by
  rcases s.proxyEnd_eq setup with ⟨_, hEq⟩ | ⟨e, _, hEq⟩ <;>
    rw [hEq]
  · exact hDown.taken rfl rfl rfl hDown.bound (fun _ => id) id
  · exact hDown.taken rfl rfl rfl hDown.bound (fun _ => id) id

/- The end of the hello is no reply yet. -/
theorem DownInv.daemonEnd
    (hDown : DownInv s) :
    DownInv s.daemonEnd := by
  rcases s.daemonEnd_eq with hEq | ⟨line, _, hEq⟩ <;> rw [hEq]
  · exact hDown.taken rfl rfl rfl hDown.bound nofun nofun
  · exact hDown.taken rfl rfl rfl hDown.bound nofun nofun

/- The first reply is what the pipe begins with. -/
theorem DownInv.replyWith
    (hDown : DownInv s)
    (hReply : s.reply = none)
    (reply : HelloReply) :
    DownInv (s.replyWith reply) := by
  rcases hDown.quiet hReply with ⟨hWritten, hServed⟩
  refine ⟨hDown.bound, nofun, ?_, ?_, nofun, .inl hServed⟩
  · intro r _
    simp only [Exchange.replyWith, hWritten]
    exact List.nil_prefix
  · intro r hStage
    cases hStage
    exact ⟨rfl, hServed⟩

/- A piece of the reply. -/
theorem DownInv.write
    {reply : HelloReply} {n : Nat}
    (hDown : DownInv s)
    (hStage : s.daemon = .replying reply) :
    s.down.written ++
        (reply.bytes.drop s.down.written.length).take n <+:
      reply.bytes := by
  rcases hDown.replying reply hStage with ⟨hReply, hServed⟩
  have hStream := hDown.stream reply hReply
  rw [hServed, List.append_nil] at hStream
  have hWritten :
      s.down.written ++
          (reply.bytes.drop s.down.written.length).take n =
        reply.bytes.take (s.down.written.length + n) := by
    rw [List.take_add, ← List.prefix_iff_eq_take.mp hStream]
  rw [hWritten]
  exact List.take_prefix _ _

/- The rest of the reply. -/
theorem DownInv.written_append_drop
    {reply : HelloReply}
    (hDown : DownInv s)
    (hStage : s.daemon = .replying reply) :
    s.down.written ++ reply.bytes.drop s.down.written.length =
      reply.bytes := by
  rcases hDown.replying reply hStage with ⟨hReply, hServed⟩
  have hStream := hDown.stream reply hReply
  rw [hServed, List.append_nil] at hStream
  conv_lhs => rw [List.prefix_iff_eq_take.mp hStream]
  rw [List.length_take, Nat.min_eq_left hStream.length_le]
  exact List.take_append_drop _ _

/- The reply and the session are what the daemon wrote. -/
theorem DownInv.step
    (hDown : DownInv s)
    (hDaemon : DaemonInv setup s)
    (hMove : Move setup s t) :
    DownInv t := by
  have hLonger :
      ∀ bs, s.down.taken ≤ (s.down.written ++ bs).length := by
    intro bs
    rw [List.length_append]
    exact Nat.le_add_right_of_le hDown.bound
  have hTake :
      ∀ b, s.down.written[s.down.taken]? = some b →
        s.down.take.taken ≤ s.down.written.length := by
    intro b hByte
    exact (List.getElem?_eq_some_iff.mp hByte).1
  cases hMove with
  | proxyRead b hStage hByte hNot =>
      exact hDown.taken rfl rfl rfl (hTake b hByte)
        (fun _ => id) id
  | proxyLine hStage hByte =>
      exact DownInv.proxyEnd (hDown.taken rfl rfl rfl
        (hTake _ hByte) (fun _ => id) id)
  | proxyEof hStage hTaken => exact hDown.proxyEnd
  | daemonLine hStage hByte hLimit =>
      exact DownInv.daemonEnd (hDown.taken rfl rfl rfl
        hDown.bound (fun _ => id) id)
  | daemonEof hStage hEnd => exact hDown.daemonEnd
  | initFailed line error hStage hInit =>
      exact hDown.replyWith (hDaemon.waiting line hStage).1 _
  | refuse line reply hStage hInit hAccept =>
      exact hDown.replyWith (hDaemon.waiting line hStage).1 _
  | accept line hello hStage hInit hAccept =>
      exact hDown.taken rfl rfl rfl hDown.bound nofun nofun
  | notEnsured hello e hStage =>
      exact hDown.replyWith (hDaemon.ensuring hello hStage).1 _
  | ensured hello hStage =>
      have hNew := hDown.replyWith
        (hDaemon.ensuring hello hStage).1 .accept
      exact ⟨hNew.bound, nofun, hNew.stream, hNew.replying,
        nofun, hNew.served⟩
  | daemonWrite reply n hStage hLt =>
      rcases hDown.replying reply hStage with ⟨hReply, hServed⟩
      refine ⟨hLonger _, ?_, ?_, hDown.replying, ?_,
        .inl hServed⟩
      · intro hNone
        rw [hReply] at hNone
        cases hNone
      · intro r hr
        rw [hReply] at hr
        cases hr
        exact (hDown.write hStage).trans
          (List.prefix_append _ _)
      · intro h
        rw [hStage] at h
        cases h
  | daemonReplied reply hStage hOk =>
      rcases hDown.replying reply hStage with ⟨hReply, hServed⟩
      have hAccept :=
        (hDaemon.reason reply hReply).eq_accept hOk
      have hAll := hDown.written_append_drop hStage
      subst hAccept
      refine ⟨hLonger _, ?_, ?_, nofun, fun _ => ⟨hReply, ?_⟩,
        .inl hServed⟩
      · intro hNone
        rw [hReply] at hNone
        cases hNone
      · intro r hr
        rw [hReply] at hr
        cases hr
        simp only [Pipe.write, hAll]
        exact List.prefix_append _ _
      · simp only [Pipe.write, hAll, hServed, List.append_nil]
  | daemonRefused reply hStage =>
      rcases hDown.replying reply hStage with ⟨hReply, hServed⟩
      have hAll := hDown.written_append_drop hStage
      refine ⟨hLonger _, ?_, ?_, nofun, nofun, .inl hServed⟩
      · intro hNone
        simp only [Exchange.daemonClose, hReply] at hNone
        cases hNone
      · intro r hr
        simp only [Exchange.daemonClose, hReply] at hr
        cases hr
        simp only [Exchange.daemonClose, Pipe.close, Pipe.write,
          hAll]
        exact List.prefix_append _ _
  | daemonSend bs hStage =>
      rcases hDown.serving hStage with ⟨hReply, hWritten⟩
      have hNew :
          s.down.written ++ bs =
            HelloReply.accept.bytes ++ (s.served ++ bs) := by
        rw [hWritten, List.append_assoc]
      refine ⟨hLonger _, ?_, ?_, ?_, fun _ => ⟨hReply, hNew⟩,
        .inr ⟨hReply, hNew⟩⟩
      · intro hNone
        rw [hReply] at hNone
        cases hNone
      · intro r hr
        rw [hReply] at hr
        cases hr
        simp only [Pipe.write, hNew]
        exact List.prefix_rfl
      · intro r h
        rw [hStage] at h
        cases h
  | daemonStop =>
      exact hDown.taken rfl rfl rfl hDown.bound nofun nofun
  | _ =>
      exact hDown.taken rfl rfl rfl hDown.bound (fun _ => id) id

/- Bytes that come later do not change what was heard. -/
theorem DaemonInv.write
    (hDaemon : DaemonInv setup s)
    (hUp : UpInv setup s)
    (hLive : s.proxy.Live)
    (bs : List UInt8)
    (hView : t.daemon = s.daemon ∧ t.up = s.up.write bs ∧
      t.init = s.init ∧ t.heard = s.heard ∧
        t.reply = s.reply ∧ t.session = s.session) :
    DaemonInv setup t := by
  rcases hView with ⟨hStage, hPipe, hInit, hHeard, hReply, hSession⟩
  have hOpen := hUp.opened hLive
  constructor
  · rw [hStage, hPipe, hReply, Pipe.line_write hUp.bound]
    exact hDaemon.reading
  · rw [hStage, hPipe, hReply, hHeard]
    intro line h
    exact (hDaemon.waiting line h).imp_right
      (fun hTold => hTold.write hOpen bs)
  · rw [hStage, hPipe, hReply, hInit, hHeard]
    intro hello h
    rcases hDaemon.ensuring hello h with
      ⟨hNone, hEq, hAccepts, hReady, hWhole⟩
    exact ⟨hNone, hEq, hAccepts, hReady, hWhole.write hOpen bs⟩
  · rw [hReply, hInit, hPipe]
    exact hDaemon.reason
  · rw [hReply, hSession, hPipe, hHeard]
    intro h
    exact (hDaemon.session h).imp_right
      (fun hWhole => hWhole.write hOpen bs)

/- A proxy that closes its end keeps the invariant. -/
theorem DaemonInv.close
    (hDaemon : DaemonInv setup s)
    (hView : t.daemon = s.daemon ∧ t.up = s.up.close ∧
      t.init = s.init ∧ t.heard = s.heard ∧
        t.reply = s.reply ∧ t.session = s.session) :
    DaemonInv setup t := by
  rcases hView with ⟨hStage, hPipe, hInit, hHeard, hReply, hSession⟩
  constructor
  · rw [hStage, hPipe, hReply]
    exact hDaemon.reading
  · rw [hStage, hPipe, hReply, hHeard]
    intro line h
    exact (hDaemon.waiting line h).imp_right Told.close
  · rw [hStage, hPipe, hReply, hInit, hHeard]
    intro hello h
    rcases hDaemon.ensuring hello h with
      ⟨hNone, hEq, hAccepts, hReady, hWhole⟩
    exact ⟨hNone, hEq, hAccepts, hReady, hWhole.close⟩
  · rw [hReply, hInit, hPipe]
    intro reply h
    exact (hDaemon.reason reply h).close
  · rw [hReply, hSession, hPipe, hHeard]
    intro h
    exact (hDaemon.session h).imp_right Whole.close

/- Past its decision, a daemon keeps what it was made for. -/
theorem DaemonInv.later
    (hDaemon : DaemonInv setup s)
    (hPast :
      t.daemon = s.daemon ∨
        (t.daemon ≠ .reading ∧
          (∀ line, t.daemon ≠ .waiting line) ∧
            ∀ hello, t.daemon ≠ .ensuring hello))
    (hUp : t.up = s.up ∨ (s.daemon = .serving ∧ t.up = s.up.take))
    (hInit : t.init = s.init)
    (hView : t.heard = s.heard ∧
      t.reply = s.reply ∧ t.session = s.session) :
    DaemonInv setup t := by
  rcases hView with ⟨hHeard, hReply, hSession⟩
  have hClosed : t.up.closed = s.up.closed := by
    rcases hUp with h | ⟨_, h⟩ <;> rw [h]
    rfl
  have hWhole :
      Whole setup.hello s.up s.heard →
        Whole setup.hello t.up t.heard := by
    intro hWhole
    rw [hHeard]
    rcases hUp with h | ⟨_, h⟩ <;> rw [h]
    · exact hWhole
    · exact hWhole.take
  have hSame :
      ∀ stage, s.daemon = stage → stage ≠ .serving →
        t.up = s.up := by
    intro stage hStage hNot
    rcases hUp with h | ⟨hServing, _⟩
    · exact h
    · exact absurd (hStage.symm.trans hServing) hNot
  constructor
  · intro h
    rcases hPast with hStage | ⟨hNot, _, _⟩
    · rw [hStage] at h
      rw [hSame _ h nofun, hReply]
      exact hDaemon.reading h
    · exact absurd h hNot
  · intro line h
    rcases hPast with hStage | ⟨_, hNot, _⟩
    · rw [hStage] at h
      rw [hSame _ h nofun, hReply, hHeard]
      exact hDaemon.waiting line h
    · exact absurd h (hNot line)
  · intro hello h
    rcases hPast with hStage | ⟨_, _, hNot⟩
    · rw [hStage] at h
      rw [hSame _ h nofun, hReply, hHeard, hInit]
      exact hDaemon.ensuring hello h
    · exact absurd h (hNot hello)
  · rw [hReply, hInit, hClosed]
    exact hDaemon.reason
  · rw [hReply, hSession]
    intro h
    exact (hDaemon.session h).imp_right hWhole

theorem DaemonInv.stop
    (hDaemon : DaemonInv setup s) :
    DaemonInv setup s.daemonClose :=
  hDaemon.later (.inr ⟨nofun, nofun, nofun⟩) (.inl rfl) rfl
    ⟨rfl, rfl, rfl⟩

/- The proxy's end has no part in the daemon's. -/
theorem DaemonInv.proxyEnd
    (hDaemon : DaemonInv setup s) :
    DaemonInv setup (s.proxyEnd setup) := by
  rcases s.proxyEnd_eq setup with ⟨_, hEq⟩ | ⟨e, _, hEq⟩ <;>
    rw [hEq]
  · exact hDaemon.later (.inl rfl) (.inl rfl) rfl
      ⟨rfl, rfl, rfl⟩
  · exact hDaemon.close ⟨rfl, rfl, rfl, rfl, rfl, rfl⟩

/- The daemon has a line, as it was told. -/
theorem DaemonInv.hear
    (hReply : s.reply = none)
    (hTold :
      ∀ line, Setup.heard s.up.line = some line →
        Told setup s.up s.up.taken line) :
    DaemonInv setup s.daemonEnd := by
  have hNone :
      ∀ reply, s.reply = some reply → False := by
    intro reply h
    rw [hReply] at h
    cases h
  rcases s.daemonEnd_eq with hEq | ⟨line, hHeard, hEq⟩ <;>
    rw [hEq]
  · exact ⟨nofun, nofun, nofun,
      fun reply h => (hNone reply h).elim,
      fun h => (hNone _ h).elim⟩
  · refine ⟨nofun, ?_, nofun,
      fun reply h => (hNone reply h).elim,
      fun h => (hNone _ h).elim⟩
    intro text hStage
    cases hStage
    exact ⟨hReply, hTold line hHeard⟩

/- A refusal is given for a reason. -/
theorem DaemonInv.replyWith
    {reply : HelloReply}
    (hReason : Reason setup s.up.closed s.init reply)
    (hOk : reply.ok = false) :
    DaemonInv setup (s.replyWith reply) := by
  refine ⟨nofun, nofun, nofun, ?_, ?_⟩
  · intro r hr
    cases hr
    exact hReason
  · intro h
    cases h
    cases hOk

/- A hello that is not accepted is refused. -/
theorem Reason.ok_eq_false
    {closed : Bool} {init : InitView} {line : List Char}
    {reply : HelloReply}
    (hReason : Reason setup closed init reply)
    (hAccept : setup.accept line = .error reply) :
    reply.ok = false := by
  cases hReason with
  | accept _ _ =>
      rw [Setup.accept] at hAccept
      split at hAccept
      · rename_i hDecode
        cases hAccept
        simp only [Hello.decode] at hDecode
        repeat' split at hDecode
        all_goals cases hDecode
      · rename_i hello _
        simp only [Hello.check] at hAccept
        repeat' split at hAccept
        all_goals cases hAccept
        all_goals rename_i hCheck
        all_goals split at hCheck <;> cases hCheck
  | _ => rfl

/- The daemon answers what it has heard. -/
theorem DaemonInv.step
    (hReads : setup.reader.Reads)
    (hVersion : setup.hello.ferrexHello < 2 ^ 32)
    (hUp : UpInv setup s)
    (hDaemon : DaemonInv setup s)
    (hMove : Move setup s t) :
    DaemonInv setup t := by
  cases hMove with
  | proxyWrite n hStage hPos hLe =>
      exact hDaemon.write hUp (.inl hStage) _
        ⟨rfl, rfl, rfl, rfl, rfl, rfl⟩
  | proxyFail e hStage hKind =>
      exact hDaemon.close ⟨rfl, rfl, rfl, rfl, rfl, rfl⟩
  | proxyLine hStage hByte =>
      exact DaemonInv.proxyEnd (hDaemon.later (.inl rfl) (.inl rfl)
        rfl ⟨rfl, rfl, rfl⟩)
  | proxyEof hStage hTaken => exact hDaemon.proxyEnd
  | proxyDrop =>
      exact hDaemon.close ⟨rfl, rfl, rfl, rfl, rfl, rfl⟩
  | proxySend bs hStage =>
      exact hDaemon.write hUp (.inr (.inr hStage)) bs
        ⟨rfl, rfl, rfl, rfl, rfl, rfl⟩
  | settle view hPending =>
      refine ⟨hDaemon.reading, hDaemon.waiting, ?_, ?_,
        hDaemon.session⟩
      · intro hello h
        have hReady := (hDaemon.ensuring hello h).2.2.2.1
        rw [hPending] at hReady
        cases hReady
      · intro reply h
        have hReason := hDaemon.reason reply h
        rw [hPending] at hReason
        exact hReason.settle
  | daemonRead b hStage hByte hLimit hNot =>
      rcases hDaemon.reading hStage with ⟨hReply, _, hNone⟩
      refine ⟨fun _ => ⟨hReply, hLimit,
        Pipe.newline_notMem_take hNone hByte hNot⟩, ?_, ?_,
        hDaemon.reason, ?_⟩
      · intro line h
        rw [hStage] at h
        cases h
      · intro hello h
        rw [hStage] at h
        cases h
      · intro h
        rw [hReply] at h
        cases h
  | daemonLine hStage hByte hLimit =>
      rcases hDaemon.reading hStage with ⟨hReply, _, hNone⟩
      refine DaemonInv.hear hReply ?_
      intro line hHeard
      exact Told.of_newline hUp.stream hNone hByte hLimit hHeard
  | daemonEof hStage hEnd =>
      rcases hDaemon.reading hStage with ⟨hReply, hMax, hNone⟩
      refine DaemonInv.hear hReply ?_
      intro line hHeard
      exact Told.of_end hUp.stream hNone hEnd hUp.bound hMax
        hHeard
  | initFailed line error hStage hInit =>
      exact DaemonInv.replyWith (.init error hInit) rfl
  | refuse line reply hStage hInit hAccept =>
      have hReason :=
        accept_eq_error s.init hReads hVersion
          (hDaemon.waiting line hStage).2 hAccept
      exact DaemonInv.replyWith hReason
        (hReason.ok_eq_false hAccept)
  | accept line hello hStage hInit hAccept =>
      rcases hDaemon.waiting line hStage with ⟨hReply, hTold⟩
      rcases accept_eq_ok hReads hVersion hTold hAccept with
        ⟨hEq, hAccepts, hWhole⟩
      refine ⟨nofun, nofun, ?_, hDaemon.reason,
        hDaemon.session⟩
      intro h hEnsuring
      cases hEnsuring
      exact ⟨hReply, hEq, hAccepts, hInit, hWhole⟩
  | notEnsured hello e hStage =>
      rcases hDaemon.ensuring hello hStage with
        ⟨_, rfl, hAccepts, hInit, _⟩
      exact DaemonInv.replyWith (.session e hAccepts hInit) rfl
  | ensured hello hStage =>
      rcases hDaemon.ensuring hello hStage with
        ⟨_, rfl, hAccepts, hInit, hWhole⟩
      refine ⟨nofun, nofun, nofun, ?_,
        fun _ => ⟨rfl, hWhole⟩⟩
      intro r hr
      cases hr
      exact .accept hAccepts hInit
  | daemonReplied reply hStage hOk =>
      exact hDaemon.later (.inr ⟨nofun, nofun, nofun⟩)
        (.inl rfl) rfl ⟨rfl, rfl, rfl⟩
  | daemonRefused reply hStage =>
      exact DaemonInv.stop (hDaemon.later (.inl rfl) (.inl rfl)
        rfl ⟨rfl, rfl, rfl⟩)
  | daemonTake hStage hLt =>
      exact hDaemon.later (.inl rfl) (.inr ⟨hStage, rfl⟩) rfl
        ⟨rfl, rfl, rfl⟩
  | daemonStop => exact hDaemon.stop
  | _ =>
      exact hDaemon.later (.inl rfl) (.inl rfl) rfl
        ⟨rfl, rfl, rfl⟩

/- The daemon's side goes on, and the proxy keeps its own. -/
theorem ProxyInv.later
    (hProxy : ProxyInv setup s)
    (hStage : t.proxy = s.proxy)
    (hTaken : t.down.taken = s.down.taken)
    (hLine : t.down.line = s.down.line)
    (hReply : ∀ r, s.reply = some r → t.reply = some r)
    (hReason :
      ∀ reply, Reason setup false s.init reply →
        Reason setup false t.init reply) :
    ProxyInv setup t where
  listening := by
    rw [hStage, hLine]
    exact hProxy.listening
  connected := by
    rw [hStage, hTaken]
    intro h
    exact (hProxy.connected h).imp_left (hReply _)
  failed := by
    rw [hStage]
    intro e hFailed hKind
    rcases hProxy.failed e hFailed hKind with
      ⟨reply, hr, hOk, hEq, hWhy⟩
    exact ⟨reply, hReply _ hr, hOk, hEq, hReason _ hWhy⟩

/- The proxy takes the answer for what it is. -/
theorem ProxyInv.answered
    (hReads : setup.reader.Reads)
    (hUp : UpInv setup s)
    (hDown : DownInv s)
    (hDaemon : DaemonInv setup s)
    (hNone : Utf8.newline ∉ s.down.line)
    (hStage : s.proxy = .reading)
    (hByte : s.down.written[s.down.taken]? = some Utf8.newline) :
    ProxyInv setup
      (Exchange.proxyEnd setup { s with down := s.down.take }) := by
  have hReply : ∃ reply, s.reply = some reply := by
    cases hReply : s.reply with
    | some reply => exact ⟨reply, rfl⟩
    | none =>
        rw [(hDown.quiet hReply).1] at hByte
        cases hByte
  rcases hReply with ⟨reply, hReply⟩
  rcases answer_of_newline setup hReads
    (hDown.stream reply hReply) hNone hByte with ⟨hTaken, hAnswer⟩
  have hReason := hDaemon.reason reply hReply
  rw [hUp.opened (.inr (.inl hStage))] at hReason
  rcases Exchange.proxyEnd_eq setup
      { s with down := s.down.take } with
    ⟨hOk, hEq⟩ | ⟨e, hError, hEq⟩ <;> rw [hEq]
  · rw [hAnswer] at hOk
    split at hOk
    · rename_i hTrue
      obtain rfl := hReason.eq_accept hTrue
      exact ⟨nofun, fun _ => ⟨hReply, hTaken⟩, nofun⟩
    · cases hOk
  · rw [hAnswer] at hError
    split at hError
    · cases hError
    · rename_i hFalse
      cases hError
      refine ⟨nofun, nofun, ?_⟩
      intro e hFailed _
      cases hFailed
      exact ⟨reply, hReply, Bool.not_eq_true _ ▸ hFalse, rfl,
        hReason⟩

/- The proxy knows what the daemon has decided. -/
theorem ProxyInv.step
    (hReads : setup.reader.Reads)
    (hInv : s.Inv setup)
    (hMove : Move setup s t) :
    ProxyInv setup t := by
  rcases hInv with ⟨hUp, hDown, hDaemon, hProxy⟩
  have hNew :
      ∀ r, s.reply = none → s.reply = some r → False := by
    intro r hNone hSome
    rw [hNone] at hSome
    cases hSome
  cases hMove with
  | proxyWrite n hStage hPos hLe =>
      refine ⟨fun _ => hProxy.listening (.inl hStage), ?_, ?_⟩
      · intro h
        simp only at h
        split at h <;> cases h
      · intro e h
        simp only at h
        split at h <;> cases h
  | proxyFail e hStage hKind =>
      refine ⟨nofun, nofun, ?_⟩
      intro e' h hSome
      cases h
      exact absurd hKind hSome
  | proxyRead b hStage hByte hNot =>
      refine ⟨fun _ => Pipe.newline_notMem_take
        (hProxy.listening (.inr hStage)) hByte hNot, ?_, ?_⟩
      · intro h
        rw [hStage] at h
        cases h
      · intro e h
        rw [hStage] at h
        cases h
  | proxyLine hStage hByte =>
      exact ProxyInv.answered hReads hUp hDown hDaemon
        (hProxy.listening (.inr hStage)) hStage hByte
  | proxyEof hStage hTaken =>
      have hNone := hProxy.listening (.inr hStage)
      rcases kind_of_answer_end setup hNone with
        ⟨e, hAnswer, hKind⟩
      rcases s.proxyEnd_eq setup with
        ⟨hOk, _⟩ | ⟨e', hError, hEq⟩
      · rw [hAnswer] at hOk
        cases hOk
      · rw [hEq]
        rw [hAnswer] at hError
        cases hError
        refine ⟨nofun, nofun, ?_⟩
        intro e' h hSome
        cases h
        exact absurd hKind hSome
  | proxyDrop => exact ⟨nofun, nofun, nofun⟩
  | settle view hPending =>
      refine hProxy.later rfl rfl rfl (fun _ => id) ?_
      intro reply hReason
      rw [hPending] at hReason
      exact hReason.settle
  | daemonLine hStage hByte hLimit =>
      rcases Exchange.daemonEnd_eq { s with up := s.up.take } with
        hEq | ⟨line, _, hEq⟩ <;> rw [hEq]
      · exact hProxy.later rfl rfl rfl (fun _ => id)
          (fun _ => id)
      · exact hProxy.later rfl rfl rfl (fun _ => id)
          (fun _ => id)
  | daemonEof hStage hEnd =>
      rcases s.daemonEnd_eq with hEq | ⟨line, _, hEq⟩ <;> rw [hEq]
      · exact hProxy.later rfl rfl rfl (fun _ => id)
          (fun _ => id)
      · exact hProxy.later rfl rfl rfl (fun _ => id)
          (fun _ => id)
  | initFailed line error hStage hInit =>
      have hNone := (hDaemon.waiting line hStage).1
      exact hProxy.later rfl rfl rfl
        (fun r h => (hNew r hNone h).elim) (fun _ => id)
  | refuse line reply hStage hInit hAccept =>
      have hNone := (hDaemon.waiting line hStage).1
      exact hProxy.later rfl rfl rfl
        (fun r h => (hNew r hNone h).elim) (fun _ => id)
  | notEnsured hello e hStage =>
      have hNone := (hDaemon.ensuring hello hStage).1
      exact hProxy.later rfl rfl rfl
        (fun r h => (hNew r hNone h).elim) (fun _ => id)
  | ensured hello hStage =>
      have hNone := (hDaemon.ensuring hello hStage).1
      exact hProxy.later rfl rfl rfl
        (fun r h => (hNew r hNone h).elim) (fun _ => id)
  | daemonWrite reply n hStage hLt =>
      exact hProxy.later rfl rfl (Pipe.line_write hDown.bound _)
        (fun _ => id) (fun _ => id)
  | daemonReplied reply hStage hOk =>
      exact hProxy.later rfl rfl (Pipe.line_write hDown.bound _)
        (fun _ => id) (fun _ => id)
  | daemonRefused reply hStage =>
      exact hProxy.later rfl rfl (Pipe.line_write hDown.bound _)
        (fun _ => id) (fun _ => id)
  | daemonSend bs hStage =>
      exact hProxy.later rfl rfl (Pipe.line_write hDown.bound _)
        (fun _ => id) (fun _ => id)
  | _ =>
      exact hProxy.later rfl rfl rfl (fun _ => id) (fun _ => id)

end Steps

------------------------------------------------------------
-- Runs
------------------------------------------------------------

section Runs

variable {setup : Setup} {s : Exchange}

theorem Exchange.inv_start (setup : Setup) :
    Exchange.start.Inv setup where
  up :=
    ⟨Nat.le_refl _, List.nil_prefix, fun _ => rfl,
      by simp [Exchange.start], fun _ => rfl, .inl rfl⟩
  down :=
    ⟨Nat.le_refl _, fun _ => ⟨rfl, rfl⟩, nofun, nofun, nofun,
      .inl rfl⟩
  daemon :=
    ⟨fun _ => ⟨rfl, Nat.zero_le _, List.not_mem_nil⟩, nofun,
      nofun, nofun, nofun⟩
  proxy := ⟨fun _ => List.not_mem_nil, nofun, nofun⟩

/- So both ends agree in every state that is reached. -/
theorem inv_of_reachable
    (hReads : setup.reader.Reads)
    (hVersion : setup.hello.ferrexHello < 2 ^ 32)
    (hReach : (machine setup).Reachable s) :
    s.Inv setup := by
  rcases hReach with ⟨s₀, es, rfl, hRun⟩
  refine hRun.invariant (I := Exchange.Inv setup) ?_
    (Exchange.inv_start setup)
  intro s e t hInv hNext
  have hMove := Exchange.next_eq_some hNext
  rcases hInv with ⟨hUp, hDown, hDaemon, hProxy⟩
  exact ⟨hUp.step hMove, hDown.step hDaemon hMove,
    hDaemon.step hReads hVersion hUp hMove,
    ProxyInv.step hReads ⟨hUp, hDown, hDaemon, hProxy⟩ hMove⟩

/-
  A connected proxy has been accepted: by a daemon that is
  initialized, speaks its version, serves its key and has
  its namespace, and that had the hello in full.
-/
theorem connected_accepted
    (hReads : setup.reader.Reads)
    (hVersion : setup.hello.ferrexHello < 2 ^ 32)
    (hReach : (machine setup).Reachable s)
    (hConnected : s.proxy = .connected) :
    s.reply = some .accept ∧ s.init = .ready ∧
      s.session = some setup.hello.namespace ∧
      setup.hello.ferrexHello = protocolVersion ∧
      setup.hello.key = setup.key ∧
      setup.hello.textBytes.length ≤ maxHelloBytes := by
  have hInv := inv_of_reachable hReads hVersion hReach
  have hReply := (hInv.proxy.connected hConnected).1
  have hSession := (hInv.daemon.session hReply).1
  have hReason := hInv.daemon.reason _ hReply
  cases hReason with
  | accept hAccepts hInit =>
      exact ⟨hReply, hInit, hSession, hAccepts.version,
        hAccepts.key, hAccepts.size⟩

/- A proxy of namespace `n`, and a daemon of key `k`. -/
def Setup.sample (key : String) : Setup where
  reader := .compact
  hello := .new key "n"
  key := "k"
  budget := "3600s"
  quoted := fun s => "\"" ++ s ++ "\""

/- One hello in one piece, read to its end, and its reply. -/
def Setup.events
    (setup : Setup)
    (reply : HelloReply) : List Event :=
  .proxyWrite setup.hello.bytes.length ::
    (List.replicate setup.hello.bytes.length .daemonRead ++
      [.settle none, .daemonInit] ++
      (if reply.ok then [.daemonEnsure none] else []) ++
      [.daemonWrite reply.bytes.length] ++
      List.replicate reply.bytes.length .proxyRead)

/- A computed run to a state that passes a test. -/
theorem reachable_of_any
    (setup : Setup)
    (es : List Event)
    (test : Exchange → Bool)
    (h :
      (es.foldlM (Exchange.next setup) .start).any test =
        true) :
    ∃ s, (machine setup).Reachable s ∧ test s = true := by
  rcases Machine.Run.of_any (fun s => s = .start) .start es test
    h with ⟨s, hRun, hTest⟩
  exact ⟨s, ⟨_, _, rfl, hRun⟩, hTest⟩

theorem connected_accepted_once :
    ∃ s, (machine (.sample "k")).Reachable s ∧
      s.proxy = .connected ∧
      s.session = some "n" ∧ s.init = .ready := by
  rcases reachable_of_any (.sample "k")
    ((Setup.sample "k").events .accept)
    (fun s => s.proxy = .connected) (by decide +kernel) with
    ⟨s, hReach, hTest⟩
  have hConnected := of_decide_eq_true hTest
  have hAll := connected_accepted Reader.compact_reads
    (by decide) hReach hConnected
  exact ⟨s, hReach, hConnected, hAll.2.2.1, hAll.2.1⟩

/- What has to be the case for a refusal of a kind. -/
def Grounds
    (setup : Setup)
    (s : Exchange) : RefusalKind → Prop
| .protocol =>
    setup.hello.ferrexHello ≠ protocolVersion ∨
      maxHelloBytes < setup.hello.textBytes.length
| .key => setup.hello.key ≠ setup.key
| .init => ∃ error, s.init = .failed error
| .session => Accepts setup ∧ s.init = .ready

/-
  A refusal that the proxy reports is the daemon's, for a
  reason that is true of the hello and the daemon; it is
  worth another attempt for a key or a session only.
-/
theorem refused_with_reason
    {e : AttemptError} {kind : RefusalKind}
    (hReads : setup.reader.Reads)
    (hVersion : setup.hello.ferrexHello < 2 ^ 32)
    (hReach : (machine setup).Reachable s)
    (hFailed : s.proxy = .failed e)
    (hKind : e.kind = some kind) :
    (∃ error, s.reply = some (.refuse kind error)) ∧
      Grounds setup s kind ∧
      (e.retryable = true ↔ kind = .key ∨ kind = .session) := by
  have hInv := inv_of_reachable hReads hVersion hReach
  rcases hInv.proxy.failed e hFailed (by simp [hKind]) with
    ⟨reply, hReply, hOk, rfl, hReason⟩
  cases hReason with
  | accept => cases hOk
  | init error hInit =>
      cases hKind
      exact ⟨⟨_, hReply⟩, ⟨error, hInit⟩, by
        simp [Setup.refused, HelloReply.refuse]⟩
  | version hOther =>
      cases hKind
      exact ⟨⟨_, hReply⟩, .inl hOther, by
        simp [Setup.refused, Hello.protocol,
          HelloReply.refuse]⟩
  | cut message hCut =>
      cases hKind
      rcases hCut with hLong | hClosed
      · exact ⟨⟨_, hReply⟩, .inr hLong, by
          simp [Setup.refused, Hello.protocol,
            HelloReply.refuse]⟩
      · cases hClosed
  | key hKey =>
      cases hKind
      exact ⟨⟨_, hReply⟩, hKey, by
        simp [Setup.refused, HelloReply.refuse]⟩
  | session error hAccepts hInit =>
      cases hKind
      exact ⟨⟨_, hReply⟩, ⟨hAccepts, hInit⟩, by
        simp [Setup.refused, HelloReply.refuse]⟩

theorem refused_with_reason_for_key :
    ∃ s e, (machine (.sample "j")).Reachable s ∧
      s.proxy = .failed e ∧ e.kind = some .key ∧
      "j" ≠ "k" ∧ e.retryable = true := by
  let reply := HelloReply.refuse .key
    "key mismatch: proxy sent j, daemon is k"
  rcases reachable_of_any (.sample "j")
    ((Setup.sample "j").events reply)
    (fun s => s.proxy = .failed (Setup.refused reply))
    (by decide +kernel) with ⟨s, hReach, hTest⟩
  have hFailed := of_decide_eq_true hTest
  have hAll := refused_with_reason Reader.compact_reads
    (by decide) hReach hFailed rfl
  exact ⟨s, _, hReach, hFailed, rfl, hAll.2.1,
    hAll.2.2.mpr (.inl rfl)⟩

/-
  Between a connected proxy and its daemon each side goes on
  where the other one began; only a hello that ends at the
  limit leaves its newline to the session.
-/
theorem session_aligned
    (hReads : setup.reader.Reads)
    (hVersion : setup.hello.ferrexHello < 2 ^ 32)
    (hReach : (machine setup).Reachable s)
    (hConnected : s.proxy = .connected) :
    s.down.unread = s.served ∧
      s.up.written.drop s.heard =
        if setup.hello.textBytes.length = maxHelloBytes then
          Utf8.newline :: s.sent
        else
          s.sent := by
  have hInv := inv_of_reachable hReads hVersion hReach
  rcases hInv.proxy.connected hConnected with ⟨hReply, hTaken⟩
  have hWhole := (hInv.daemon.session hReply).2
  have hWritten := hInv.up.past (.inr hConnected)
  have hOpen := hInv.up.opened (.inr (.inr hConnected))
  constructor
  · have hStream := hInv.down.stream _ hReply
    rw [Pipe.unread, hTaken]
    rcases hInv.down.served with hNone | ⟨_, hAll⟩
    · rw [hNone, List.append_nil] at hStream
      rw [hNone]
      exact List.drop_of_length_le hStream.length_le
    · rw [hAll, List.drop_left]
  · rcases hWhole.heard with ⟨hAt, hLt, _⟩ | ⟨hAt, hEnd⟩
    · rw [if_neg (Nat.ne_of_lt hLt), hWritten, hAt,
        ← Hello.length_bytes, List.drop_left]
    · rcases hEnd with hLimit | ⟨hClosed, _⟩
      · rw [if_pos hLimit, hWritten, hAt, Hello.bytes_eq,
          List.append_assoc, List.drop_left,
          List.singleton_append]
      · rw [hOpen] at hClosed
        cases hClosed

theorem session_aligned_after_messages :
    ∃ s, (machine (.sample "k")).Reachable s ∧
      s.proxy = .connected ∧ s.sent = [1, 2] ∧
      s.down.unread = [3] ∧
      s.up.written.drop s.heard = [1, 2] := by
  rcases reachable_of_any (.sample "k")
    ((Setup.sample "k").events .accept ++
      [.proxySend [1, 2], .daemonSend [3]])
    (fun s => s.proxy = .connected ∧ s.sent = [1, 2] ∧
      s.served = [3]) (by decide +kernel) with
    ⟨s, hReach, hTest⟩
  rcases of_decide_eq_true hTest with
    ⟨hConnected, hSent, hServed⟩
  have hAll := session_aligned Reader.compact_reads
    (by decide) hReach hConnected
  rw [hServed, hSent, if_neg (by decide +kernel)] at hAll
  exact ⟨s, hReach, hConnected, hSent, hAll.1, hAll.2⟩

end Runs

end Handshake

end Daemon

end Ferrex
