import Guardian.DeltaObject

/- Account metadata (`server/src/metadata/mod.rs`, `metadata/auth/mod.rs`): the
   authorized signer set and the lifecycle columns of one account.

   `cosignerCommitments_withChainCosigners` is what the state writes rely on:
   syncing an auth with the signers of a state leaves exactly the signers of
   that state, whatever scheme each of them signs with. -/
namespace Guardian

inductive SignatureScheme where
  | falcon
  | ecdsa
  deriving DecidableEq, Repr

/-- A signer as a state lists it; the scheme is absent where the account
component does not record one. -/
structure ChainCosigner where
  commitment : String
  scheme : Option SignatureScheme
  deriving DecidableEq, Repr

structure MidenCosigner where
  commitment : String
  scheme : SignatureScheme
  deriving DecidableEq, Repr

inductive Auth where
  | midenFalconRpo (cosignerCommitments : List String)
  | midenEcdsa (cosignerCommitments : List String)
  | miden (cosigners : List MidenCosigner) (guardianScheme : SignatureScheme)
  | evmEcdsa (signers : List String)
  deriving DecidableEq, Repr

namespace Auth

def cosignerCommitments : Auth → List String
  | .midenFalconRpo cs => cs
  | .midenEcdsa cs => cs
  | .miden cosigners _ => cosigners.map (·.commitment)
  | .evmEcdsa signers => signers

/-- The scheme GUARDIAN acknowledges with. -/
def guardianScheme : Auth → SignatureScheme
  | .midenFalconRpo _ => .falcon
  | .midenEcdsa _ => .ecdsa
  | .miden _ scheme => scheme
  | .evmEcdsa _ => .ecdsa

/-- The scheme of one listed signer. -/
def signerScheme (auth : Auth) (commitment : String) : Option SignatureScheme :=
  match auth with
  | .midenFalconRpo cs => if commitment ∈ cs then some .falcon else none
  | .midenEcdsa cs => if commitment ∈ cs then some .ecdsa else none
  | .miden cosigners _ => (cosigners.find? (·.commitment == commitment)).map (·.scheme)
  | .evmEcdsa _ => none

def cosigners : Auth → List MidenCosigner
  | .midenFalconRpo cs => cs.map (⟨·, .falcon⟩)
  | .midenEcdsa cs => cs.map (⟨·, .ecdsa⟩)
  | .miden cosigners _ => cosigners
  | .evmEcdsa _ => []

def schemesInUse (auth : Auth) : List SignatureScheme :=
  [.falcon, .ecdsa].filter (fun scheme =>
    scheme == auth.guardianScheme || auth.cosigners.any (·.scheme == scheme))

def singleScheme : SignatureScheme → List String → Auth
  | .falcon, cs => .midenFalconRpo cs
  | .ecdsa, cs => .midenEcdsa cs

/-- Replace the signer set by the one a state lists. -/
def withChainCosigners (auth : Auth) (chain : List ChainCosigner) : Auth :=
  match auth with
  | .evmEcdsa _ => .evmEcdsa (chain.map (·.commitment))
  | .miden _ scheme => .miden (chain.map (resolve scheme)) scheme
  | .midenFalconRpo _ | .midenEcdsa _ =>
    let cosigners := chain.map (resolve auth.guardianScheme)
    if cosigners.all (·.scheme == auth.guardianScheme) then
      singleScheme auth.guardianScheme (cosigners.map (·.commitment))
    else .miden cosigners auth.guardianScheme
where
  resolve (scheme : SignatureScheme) (cosigner : ChainCosigner) : MidenCosigner :=
    { commitment := cosigner.commitment
      scheme := (cosigner.scheme.or (auth.signerScheme cosigner.commitment)).getD scheme }

@[simp] theorem cosignerCommitments_singleScheme (scheme : SignatureScheme) (cs : List String) :
    (singleScheme scheme cs).cosignerCommitments = cs := by cases scheme <;> rfl

/-- Syncing an auth with a state leaves exactly that state's signers. -/
theorem cosignerCommitments_withChainCosigners (auth : Auth) (chain : List ChainCosigner) :
    (auth.withChainCosigners chain).cosignerCommitments = chain.map (·.commitment) := by
  have hres : ∀ scheme, (chain.map (withChainCosigners.resolve auth scheme)).map (·.commitment) =
      chain.map (·.commitment) := by
    intro scheme
    rw [List.map_map]
    rfl
  cases auth with
  | evmEcdsa signers => rfl
  | miden cosigners scheme => exact hres scheme
  | midenFalconRpo cs =>
    simp only [withChainCosigners]
    split
    · rw [cosignerCommitments_singleScheme, hres]
    · exact hres _
  | midenEcdsa cs =>
    simp only [withChainCosigners]
    split
    · rw [cosignerCommitments_singleScheme, hres]
    · exact hres _

end Auth

/-- The `account_metadata` row. The network configuration and the audit
timestamps are left out: nothing modelled reads them. -/
structure AccountMetadata where
  auth : Auth
  hasPendingCandidate : Bool
  pausedAt : Option Time
  releasedAt : Option Time
  deriving DecidableEq, Repr

end Guardian
