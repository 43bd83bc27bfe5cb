import TeeProof.Cbor
import TeeProof.Wire

/-! Evidence profiles: what the caller trusts, what a profile's verifier reports, and
the recording of checks through code that may throw. -/
namespace TeeProof.Verifier

inductive TrustMode where
  | missing
  | certChain
  deriving DecidableEq

structure Revocation where
  required : Bool := false
  checkedExternally : Bool := false

structure PlatformTrust where
  mode : Option TrustMode := none
  rootFingerprintsSha256 : Option (List JStr) := none
  intermediateFingerprintsSha256 : Option (List JStr) := none
  rootCertificatesPem : Option (List JStr) := none
  intermediateCertificatesPem : Option (List JStr) := none
  enclaveSubjectCnPattern : Option JStr := none
  revocation : Option Revocation := none

/-- What the caller trusts. -/
structure EvidenceTrust where
  profile : Option JStr := none
  expectedPcr0 : Option JStr := none
  expectedPcr8 : Option JStr := none
  expectedPcrs : Option (List (JStr × JStr)) := none
  requirePlatformTrust : Bool := false
  allowSyntheticQuoteReportCertForTest : Bool := false
  platformTrust : Option PlatformTrust := none

inductive PlatformMode where
  | offlineChain
  | certChain
  | missing

structure PlatformVerdict where
  ok : Bool
  mode : PlatformMode
  issuer : Option JStr := none
  detail : JStr

structure EvidenceVerdict where
  ok : Bool
  profile : JStr
  checks : List TeeCheck
  moduleId : Option Cbor := none
  pcr0 : Option JStr := none
  pcr8 : Option JStr := none
  measurements : Option JsVal := none
  publicKey : Option JStr := none
  nonce : Option JStr := none
  platformTrust : Option PlatformVerdict := none

/-- `String(x)` of an optional text, as the details of the checks show it. -/
def shown (undefinedText : String) (value : Option JStr) : JStr := value.getD (JStr.lit undefinedText)

def check (name : JStr) (ok : Bool) (good bad : JStr) : TeeCheck :=
  { name, ok, detail := if ok then good else bad }

def isNonempty : Option JStr → Bool
  | some (_ :: _) => true
  | _ => false

/-- `Date.parse(c.validFrom) <= now && now <= Date.parse(c.validTo)`. -/
def timeValid (node : Node) (now : ℚ) (cert : node.Cert) : Bool :=
  match node.validFromMs cert, node.validToMs cert with
  | some from_, some to_ => decide ((from_ : ℚ) ≤ now) && decide (now ≤ (to_ : ℚ))
  | _, _ => false

/-- Code that pushes checks. -/
abbrev Recorder := StateM (List TeeCheck)

/-- Code inside a `try`: the checks pushed before a throw stay. -/
abbrev Checking := ExceptT JStr Recorder

namespace Checking

def record (c : TeeCheck) : Checking Unit := ExceptT.mk fun cs => (.ok (), cs ++ [c])

def ofThrows (x : Throws α) : Checking α := ExceptT.mk fun cs => (x, cs)

/-- `try { … } catch (err) { checks.push({ name, ok: false, detail: err.message }) }`. -/
def guarded (name : JStr) (m : Checking α) : Recorder (Option α) := fun cs =>
  match m.run cs with
  | (.ok a, cs) => (some a, cs)
  | (.error message, cs) => (none, cs ++ [{ name, ok := false, detail := message }])

theorem run_bind (m : Checking α) (f : α → Checking β) (cs : List TeeCheck) :
    (m >>= f).run cs = match m.run cs with
      | (.ok a, mid) => (f a).run mid
      | (.error e, mid) => (.error e, mid) := by
  have step : (m >>= f).run cs = (ExceptT.bindCont f (m.run cs).1).run (m.run cs).2 := rfl
  rw [step]
  rcases m.run cs with ⟨_ | _, _⟩ <;> rfl

/-- A successful sequence is two successful parts. -/
theorem bind_ok {m : Checking α} {f : α → Checking β} (h : (m >>= f).run cs = (.ok b, out)) :
    ∃ a mid, m.run cs = (.ok a, mid) ∧ (f a).run mid = (.ok b, out) := by
  rw [run_bind] at h
  split at h
  next a mid first => exact ⟨a, mid, first, h⟩
  next => cases h

theorem record_ok (h : (record c).run cs = (.ok u, out)) : out = cs ++ [c] :=
  (Prod.mk.inj h).2.symm

theorem ofThrows_ok {x : Throws α} (h : (ofThrows x).run cs = (.ok a, out)) : x = .ok a ∧ out = cs :=
  ⟨(Prod.mk.inj h).1, (Prod.mk.inj h).2.symm⟩

end Checking

end TeeProof.Verifier
