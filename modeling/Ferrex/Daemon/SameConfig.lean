import Ferrex.Daemon.Accepted
import Ferrex.Daemon.Key

/-
  A proxy and the daemon it is connected to, each with the key
  of its own launch: they come from one executable and one
  configuration, but for their namespaces.

  Main declarations:
    * `hex16_inj`
    * `Setup.launched`
    * `connected_alike`
-/

------------------------------------------------------------
-- Keys
------------------------------------------------------------

namespace Ferrex

namespace Daemon

private theorem digitChar_inj :
    ∀ m < 16, ∀ n < 16,
      Nat.digitChar m = Nat.digitChar n → m = n := by
  decide

/- The two digits of a byte. -/
private theorem hexDigits_inj
    {b c : UInt8}
    (hHigh :
      Nat.digitChar (b.toNat / 16) =
        Nat.digitChar (c.toNat / 16))
    (hLow :
      Nat.digitChar (b.toNat % 16) =
        Nat.digitChar (c.toNat % 16)) :
    b = c := by
  have hByte := b.toNat_lt
  have hByte' := c.toNat_lt
  have hQuotient :=
    digitChar_inj _ (by omega) _ (by omega) hHigh
  have hRest := digitChar_inj _ (by omega) _ (by omega) hLow
  exact UInt8.toNat_inj.mp (by omega)

private theorem hexText_inj
    {bs cs : List UInt8}
    (h :
      bs.flatMap (fun b =>
          [Nat.digitChar (b.toNat / 16),
            Nat.digitChar (b.toNat % 16)]) =
        cs.flatMap (fun b =>
          [Nat.digitChar (b.toNat / 16),
            Nat.digitChar (b.toNat % 16)])) :
    bs = cs := by
  induction bs generalizing cs with
  | nil =>
      cases cs with
      | nil => rfl
      | cons c cs => cases h
  | cons b bs ih =>
      cases cs with
      | nil => cases h
      | cons c cs =>
          simp only [List.flatMap_cons, List.cons_append,
            List.nil_append, List.cons.injEq] at h
          rw [hexDigits_inj h.1 h.2.1, ih h.2.2]

/- A key has the first eight bytes of its digest. -/
theorem hex16_inj
    {digest digest' : List UInt8}
    (h : hex16 digest = hex16 digest') :
    digest.take 8 = digest'.take 8 :=
  hexText_inj (String.ofList_injective h)

------------------------------------------------------------
-- Two Launches
------------------------------------------------------------

namespace Handshake

open Ferrex.Core

variable {F D : Type}

/- What the handshake of a proxy with a daemon goes by. -/
structure Wire where
  sha256 : List UInt8 → List UInt8
  reader : Reader
  budget : String
  quoted : String → String

/- Each side with the key of its own launch. -/
def Setup.launched
    (wire : Wire)
    (single : FloatFormat F)
    (double : FloatFormat D)
    (proxy daemon : Launch F D) : Setup where
  reader := wire.reader
  hello :=
    .new (computeKey wire.sha256 single double proxy)
      proxy.config.namespace
  key := computeKey wire.sha256 single double daemon
  budget := wire.budget
  quoted := wire.quoted

/-
  A proxy that is connected to a daemon was launched with the
  executable and the configuration of the daemon, but for the
  namespace and for floats that are finite in neither; and
  the session has the namespace of the proxy.
-/
theorem connected_alike
    {wire : Wire}
    {single : FloatFormat F} {double : FloatFormat D}
    {proxy daemon : Launch F D} {s : Exchange}
    (hReads : wire.reader.Reads)
    (hApart :
      (wire.sha256 (proxy.preimage single double)).take 8 =
          (wire.sha256 (daemon.preimage single double)).take 8 →
        proxy.preimage single double =
          daemon.preimage single double)
    (hReach :
      (machine
        (.launched wire single double proxy daemon)).Reachable s)
    (hConnected : s.proxy = .connected) :
    proxy.Alike single double daemon ∧
      s.session = some proxy.config.namespace := by
  have hVersion : protocolVersion < 2 ^ 32 := by decide
  have hInv := inv_of_reachable hReads hVersion hReach
  have hReply := (hInv.proxy.connected hConnected).1
  have hSession := (hInv.daemon.session hReply).1
  have hReason := hInv.daemon.reason _ hReply
  cases hReason with
  | accept hAccepts hInit =>
      refine ⟨?_, hSession⟩
      exact Launch.preimage_eq_iff.mp
        (hApart (hex16_inj hAccepts.key))

/- Two launches that differ in their namespaces only. -/
def launchIn (ns : String) : Launch ConfigFloat ConfigFloat :=
  let launch := Shared.launch (.finite 1)
  { launch with
    config := { launch.config with «namespace» := ns } }

/- With the digest of what either launch hashes. -/
def Wire.sample : Wire where
  sha256 _ :=
    [0x74, 0x0d, 0x25, 0xad, 0x47, 0xe8, 0xc6, 0x79,
      0xfb, 0xc5, 0x34, 0xaa, 0x11, 0x53, 0x2c, 0xa7,
      0x8f, 0x2c, 0x71, 0xb7, 0x07, 0xe4, 0x63, 0x28,
      0x2d, 0x13, 0x47, 0x08, 0x7b, 0x9d, 0x75, 0x62]
  reader := .compact
  budget := "3600s"
  quoted := fun s => "\"" ++ s ++ "\""

def Setup.sampleLaunched : Setup :=
  .launched .sample ConfigFloat.format ConfigFloat.format
    (launchIn "n") (launchIn "default")

theorem connected_alike_once :
    ∃ s, (machine .sampleLaunched).Reachable s ∧
      s.session = some "n" ∧
        (launchIn "n").Alike ConfigFloat.format
          ConfigFloat.format (launchIn "default") := by
  rcases reachable_of_any .sampleLaunched
    (Setup.sampleLaunched.events .accept)
    (fun s => s.proxy = .connected) (by decide +kernel) with
    ⟨s, hReach, hTest⟩
  have hBytes :
      (launchIn "n").preimage ConfigFloat.format
          ConfigFloat.format =
        (launchIn "default").preimage ConfigFloat.format
          ConfigFloat.format :=
    rfl
  have hBoth := connected_alike Reader.compact_reads
    (fun _ => hBytes) hReach (of_decide_eq_true hTest)
  exact ⟨s, hReach, hBoth.2, hBoth.1⟩

end Handshake

end Daemon

end Ferrex
