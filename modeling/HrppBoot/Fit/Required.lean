import HrppBoot.Fit.Signature

/-!
# Required keys

Which keys are tried for a signature: the required one where it is passed on, the one that is hinted
at, and the nodes that the loop walks through. Success for a required key means that one of them
verifies one of the signatures.
-/

namespace HrppBoot.Fit

open ByteMemory Words Rsa

variable {behind : Behind} {calculate : String → List (List UInt8) → Option (List UInt8)}
  {blob : Fdt}

section Keys

variable (behind : Behind) (calculate : String → List (List UInt8) → Option (List UInt8))
  (blob : Fdt)

/-- The signature verifies under this very key. -/
def VerifiesUnder (signed : Signed) (key : Nat) : Prop :=
  signed.algo.checksumLen ≤ signed.algo.padLen ∧
    ∃ digest, calculate signed.algo.name signed.regions = some digest ∧
      rsaVerifyWithKeynode behind blob signed.algo (hashArray behind signed.algo digest) signed.value
        (some key) = .ok ()

/-- A key is tried besides the required one: it is hinted at, or the loop walks through it. -/
def TriedBesides (fit : Fdt) (signed : Signed) (key : Nat) : Prop :=
  ∃ node, sigNode blob = some node ∧
    (hintNode blob node signed.keyname = some key ∨ key ∈ fit.subnodes node)

/-- A key that is required for a kind of things. -/
def RequiredKey (kind : List UInt8) (key : Nat) : Prop :=
  ∃ node, sigNode blob = some node ∧ key ∈ blob.subnodes node ∧ isRequired blob kind key = true

/-- What the signature nodes of a node sign. -/
def HasSignature (fit : Fdt) (parent : Nat) (signedAt : Nat → Except String Signed) (signed : Signed) :
    Prop :=
  ∃ noffset ∈ fit.subnodes parent, fitSigNodename.isPrefixOf (fit.name noffset) = true ∧
    signedAt noffset = .ok signed

/-- A signature verifies under this very key. -/
def SignedBy (fit : Fdt) (parent : Nat) (signedAt : Nat → Except String Signed) (key : Nat) : Prop :=
  ∃ signed, HasSignature fit parent signedAt signed ∧ VerifiesUnder behind calculate blob signed key

/-- A signature verifies under a key that is tried for it besides the required one. -/
def SignedBesides (fit : Fdt) (parent : Nat) (signedAt : Nat → Except String Signed) : Prop :=
  ∃ signed key, HasSignature fit parent signedAt signed ∧ TriedBesides blob fit signed key ∧
    VerifiesUnder behind calculate blob signed key

end Keys

variable {node requiredKeynode : Option Nat} {verify : Option Nat → Except Errno Unit} {fit : Fdt}

theorem tryKeys_ok_iff (keys : List Nat) {ret : Except Errno Unit} (failed : ret ≠ .ok ()) :
    tryKeys verify node keys ret = .ok () ↔
      ∃ key ∈ keys, some key ≠ node ∧ verify (some key) = .ok () := by
  induction keys generalizing ret with
  | nil => simp [tryKeys, failed]
  | cons key keys ih =>
    rw [tryKeys]
    by_cases tried : some key = node
    · rw [if_pos tried, ih failed]
      simp [tried]
    · rw [if_neg tried]
      cases result : verify (some key) with
      | ok done => simp [tried, result]
      | error e =>
        rw [ih (by simp)]
        simp [result]

theorem verifyHinted_ok_iff (invalid : verify none ≠ .ok ()) {walked : List Nat} :
    verifyHinted verify node walked = .ok () ↔
      ∃ key, verify (some key) = .ok () ∧ (node = some key ∨ key ∈ walked) := by
  unfold verifyHinted
  cases result : verify node with
  | ok done =>
    cases node with
    | none => exact absurd result invalid
    | some key => exact ⟨fun _ => ⟨key, result, .inl rfl⟩, fun _ => rfl⟩
  | error e =>
    dsimp only
    rw [tryKeys_ok_iff walked (by simp)]
    constructor
    · rintro ⟨key, isWalked, -, succeeds⟩
      exact ⟨key, succeeds, .inr isWalked⟩
    · rintro ⟨key, succeeds, isHint | isWalked⟩
      · rw [isHint, succeeds] at result
        cases result
      · refine ⟨key, isWalked, ?_, succeeds⟩
        intro isHint
        rw [← isHint, succeeds] at result
        cases result

theorem verifyWithKeys_ok_iff (invalid : verify none ≠ .ok ()) {walked : List Nat} :
    verifyWithKeys verify requiredKeynode node walked = .ok () ↔
      ∃ key, verify (some key) = .ok () ∧
        (requiredKeynode = some key ∨ node = some key ∨ key ∈ walked) := by
  unfold verifyWithKeys
  cases requiredKeynode with
  | none =>
    dsimp only
    rw [verifyHinted_ok_iff invalid]
    simp
  | some required =>
    dsimp only
    cases result : verify (some required) with
    | ok done => exact ⟨fun _ => ⟨required, result, .inl rfl⟩, fun _ => rfl⟩
    | error e =>
      dsimp only
      rw [verifyHinted_ok_iff invalid]
      constructor
      · rintro ⟨key, succeeds, tried⟩
        exact ⟨key, succeeds, .inr tried⟩
      · rintro ⟨key, succeeds, isRequired | tried⟩
        · cases isRequired
          rw [succeeds] at result
          cases result
        · exact ⟨key, succeeds, tried⟩

theorem rsaVerify_ok_iff {signed : Signed} :
    rsaVerify behind calculate blob fit signed requiredKeynode = .ok () ↔
      (sigNode blob).isSome ∧ ∃ key, VerifiesUnder behind calculate blob signed key ∧
        (requiredKeynode = some key ∨ TriedBesides blob fit signed key) := by
  unfold rsaVerify VerifiesUnder TriedBesides
  by_cases long : signed.algo.checksumLen > signed.algo.padLen
  · have short : ¬signed.algo.checksumLen ≤ signed.algo.padLen := by omega
    simp [if_pos long, short]
  · have short : signed.algo.checksumLen ≤ signed.algo.padLen := by omega
    rw [if_neg long]
    cases sigNode blob with
    | none => simp
    | some node =>
      cases calculate signed.algo.name signed.regions with
      | none => simp
      | some digest =>
        dsimp only
        rw [verifyWithKeys_ok_iff (by simp [rsaVerifyWithKeynode])]
        simp [short]

theorem verifySig_ok_iff {check : Nat → Except String Unit} (nodes : List Nat) :
    verifySig fit check nodes = .ok () ↔
      ∃ noffset ∈ nodes, fitSigNodename.isPrefixOf (fit.name noffset) = true ∧
        check noffset = .ok () := by
  induction nodes with
  | nil => simp [verifySig]
  | cons noffset nodes ih =>
    rw [verifySig]
    by_cases named : fitSigNodename.isPrefixOf (fit.name noffset) = true
    · rw [if_pos named]
      cases result : check noffset with
      | ok done =>
        exact ⟨fun _ => ⟨noffset, List.mem_cons_self .., named, result⟩, fun _ => rfl⟩
      | error text =>
        dsimp only
        rw [ih]
        simp [result]
    · rw [if_neg named, ih, List.exists_mem_cons_iff]
      simp only [named, Bool.false_eq_true, false_and, false_or]

theorem checkSigned_ok_iff {prepared : Except String Signed} :
    checkSigned behind calculate blob fit requiredKeynode prepared = .ok () ↔
      ∃ signed, prepared = .ok signed ∧
        rsaVerify behind calculate blob fit signed requiredKeynode = .ok () := by
  cases prepared with
  | error text => simp [checkSigned]
  | ok signed =>
    rw [checkSigned]
    cases result : rsaVerify behind calculate blob fit signed requiredKeynode with
    | ok done => simp [result]
    | error e => simp [result]

theorem verifySig_signed {parent : Nat} {signedAt : Nat → Except String Signed}
    (keys : (sigNode blob).isSome) :
    verifySig fit (fun noffset => checkSigned behind calculate blob fit requiredKeynode
        (signedAt noffset)) (fit.subnodes parent) = .ok () ↔
      (∃ key, requiredKeynode = some key ∧ SignedBy behind calculate blob fit parent signedAt key) ∨
        SignedBesides behind calculate blob fit parent signedAt := by
  rw [verifySig_ok_iff]
  constructor
  · rintro ⟨noffset, member, named, checks⟩
    obtain ⟨signed, isSigned, verifies⟩ := checkSigned_ok_iff.mp checks
    obtain ⟨-, key, under, isRequired | tried⟩ := rsaVerify_ok_iff.mp verifies
    · exact .inl ⟨key, isRequired, signed, ⟨noffset, member, named, isSigned⟩, under⟩
    · exact .inr ⟨signed, key, ⟨noffset, member, named, isSigned⟩, tried, under⟩
  · rintro (⟨key, isRequired, signed, ⟨noffset, member, named, isSigned⟩, under⟩ |
      ⟨signed, key, ⟨noffset, member, named, isSigned⟩, tried, under⟩)
    · exact ⟨noffset, member, named, checkSigned_ok_iff.mpr
        ⟨signed, isSigned, rsaVerify_ok_iff.mpr ⟨keys, key, under, .inl isRequired⟩⟩⟩
    · exact ⟨noffset, member, named, checkSigned_ok_iff.mpr
        ⟨signed, isSigned, rsaVerify_ok_iff.mpr ⟨keys, key, under, .inr tried⟩⟩⟩

theorem verifyRequired_ok_iff {kind : List UInt8} {verify : Nat → Except Errno Unit} (count : Nat)
    (keys : List Nat) :
    (verifyRequired blob kind verify count keys).1 = .ok () ↔
      ∀ key ∈ keys, isRequired blob kind key = true → verify key = .ok () := by
  induction keys generalizing count with
  | nil => simp [verifyRequired]
  | cons key keys ih =>
    rw [verifyRequired]
    by_cases required : isRequired blob kind key = true
    · rw [if_pos required]
      cases result : verify key with
      | error e => simp [required, result]
      | ok done =>
        dsimp only
        rw [ih]
        simp [result]
    · rw [if_neg required, ih]
      simp [required]

theorem fitConfigVerifyRequiredSigs_ok_iff {fit : FitImage} {conf : Nat} :
    fitConfigVerifyRequiredSigs behind calculate blob fit conf = .ok () ↔
      ∀ key, RequiredKey blob (ascii "conf") key →
        SignedBy behind calculate blob fit.tree conf (configSigned fit) key ∨
          SignedBesides behind calculate blob fit.tree conf (configSigned fit) := by
  unfold fitConfigVerifyRequiredSigs RequiredKey
  cases nodeIs : sigNode blob with
  | none => simp
  | some node =>
    dsimp only
    rw [verifyRequired_ok_iff]
    have keys : (sigNode blob).isSome := by simp [nodeIs]
    have each (key : Nat) : fitConfigVerifySig behind calculate blob fit conf key = .ok () ↔
        SignedBy behind calculate blob fit.tree conf (configSigned fit) key ∨
          SignedBesides behind calculate blob fit.tree conf (configSigned fit) := by
      unfold fitConfigVerifySig fitConfigCheckSig
      rw [verifySig_signed keys]
      simp
    simp only [each]
    constructor
    · rintro all key ⟨found, isNode, member, required⟩
      cases isNode
      exact all key member required
    · intro all key member required
      exact all key ⟨node, rfl, member, required⟩

theorem fitImageVerifyRequiredSigs_ok_iff {image : Nat} {data : List UInt8} :
    (fitImageVerifyRequiredSigs behind calculate blob fit image data).1 = .ok () ↔
      ∀ key, RequiredKey blob (ascii "image") key →
        SignedBesides behind calculate blob fit image (imageSigned fit data) := by
  unfold fitImageVerifyRequiredSigs RequiredKey
  cases nodeIs : sigNode blob with
  | none => simp
  | some node =>
    have keys : (sigNode blob).isSome := by simp [nodeIs]
    have each : fitImageVerifySig behind calculate blob fit image data = .ok () ↔
        SignedBesides behind calculate blob fit image (imageSigned fit data) := by
      unfold fitImageVerifySig fitImageCheckSig
      rw [verifySig_signed keys]
      simp
    have loop := @verifyRequired_ok_iff blob (ascii "image")
      (fun _ => fitImageVerifySig behind calculate blob fit image data) 0 (blob.subnodes node)
    dsimp only
    split
    · rename_i e count result
      rw [result] at loop
      simp only [reduceCtorEq, false_iff, each] at loop ⊢
      intro all
      exact loop fun key member required => all key ⟨node, rfl, member, required⟩
    · rename_i count result
      rw [result] at loop
      simp only [true_iff, each] at loop ⊢
      rintro key ⟨found, isNode, member, required⟩
      cases isNode
      exact loop key member required

section Sound

variable (behind : Behind) (calculate : String → List (List UInt8) → Option (List UInt8))
  (blob : Fdt)

/-- A configuration is accepted only if every required key has signed it. -/
def ConfigSound (fit : FitImage) (conf : Nat) : Prop :=
  fitConfigVerifyRequiredSigs behind calculate blob fit conf = .ok () →
    ∀ key, RequiredKey blob (ascii "conf") key →
      SignedBy behind calculate blob fit.tree conf (configSigned fit) key

/-- An image is accepted only if every required key has signed it. -/
def ImageSound (fit : Fdt) (image : Nat) (data : List UInt8) : Prop :=
  (fitImageVerifyRequiredSigs behind calculate blob fit image data).1 = .ok () →
    ∀ key, RequiredKey blob (ascii "image") key →
      SignedBy behind calculate blob fit image (imageSigned fit data) key

end Sound

/-- Acceptance means that every required key has signed if and only if no signature verifies under
another key that is tried for it, unless every required key has signed as well. -/
theorem required_keys_signed_iff (behind : Behind)
    (calculate : String → List (List UInt8) → Option (List UInt8)) (blob : Fdt) (fit : FitImage)
    (conf image : Nat) (data : List UInt8) :
    (ConfigSound behind calculate blob fit conf ↔
      (SignedBesides behind calculate blob fit.tree conf (configSigned fit) →
        ∀ key, RequiredKey blob (ascii "conf") key →
          SignedBy behind calculate blob fit.tree conf (configSigned fit) key)) ∧
    (ImageSound behind calculate blob fit.tree image data ↔
      (SignedBesides behind calculate blob fit.tree image (imageSigned fit.tree data) →
        ∀ key, RequiredKey blob (ascii "image") key →
          SignedBy behind calculate blob fit.tree image (imageSigned fit.tree data) key)) := by
  constructor
  · unfold ConfigSound
    rw [fitConfigVerifyRequiredSigs_ok_iff]
    constructor
    · intro sound besides
      exact sound fun key _ => .inr besides
    · intro covered accepts key required
      rcases accepts key required with own | besides
      · exact own
      · exact covered besides key required
  · unfold ImageSound
    rw [fitImageVerifyRequiredSigs_ok_iff]
    constructor
    · intro sound besides
      exact sound fun key _ => besides
    · intro covered accepts key required
      exact covered (accepts key required) key required

/-! ## A signature of another key -/

/-- A key of 2048 bits and the exponent three, whose modulus is chosen such that the power of
`3 * 2 ^ 681` is the padded checksum. -/
structure SampleSigner where
  digest : List UInt8
  inverse : List UInt8
  length : digest.length = 32
  odd : bigEndian digest % 2 = 1
  cell : inverse.length = 4
  isInverse : ((27 * 2 ^ 2043 - bigEndian (paddingSha256Rsa2048 ++ digest)) * bigEndian inverse + 1) %
    2 ^ 32 = 0

namespace SampleSigner

/-- The padded checksum. -/
def padded (signer : SampleSigner) : List UInt8 := paddingSha256Rsa2048 ++ signer.digest

/-- The modulus. -/
def n (signer : SampleSigner) : Nat := 27 * 2 ^ 2043 - bigEndian signer.padded

/-- The properties of the key. -/
def props (signer : SampleSigner) (required : Option (List UInt8)) : PropName → Option (List UInt8)
  | .required => required
  | .numBits => some [0, 0, 8, 0]
  | .n0Inverse => some signer.inverse
  | .exponent => some [0, 0, 0, 0, 0, 0, 0, 3]
  | .modulus => some (natBytes 256 signer.n)
  | .rSquared => some (natBytes 256 (2 ^ 4096 % signer.n))
  | _ => none

variable (signer : SampleSigner)

theorem padded_lt : bigEndian signer.padded < 27 * 2 ^ 2043 - 2 ^ 2047 := by
  have bound := bigEndian_lt signer.digest
  have small : (bigEndian paddingSha256Rsa2048 + 1) * 256 ^ 32 ≤ 27 * 2 ^ 2043 - 2 ^ 2047 := by
    decide +kernel
  rw [signer.length] at bound
  rw [Nat.add_mul, Nat.one_mul] at small
  unfold padded
  rw [bigEndian_append, signer.length]
  exact (Nat.add_lt_add_left bound _).trans_le small

theorem n_add_padded : signer.n + bigEndian signer.padded = 27 * 2 ^ 2043 :=
  Nat.sub_add_cancel (signer.padded_lt.le.trans (Nat.sub_le _ _))

theorem le_n : 2 ^ 2047 ≤ signer.n := by
  have small := signer.padded_lt
  have sum := signer.n_add_padded
  have large : 2 ^ 2047 ≤ 27 * 2 ^ 2043 := by decide +kernel
  generalize 27 * 2 ^ 2043 = whole at small sum large
  generalize 2 ^ 2047 = half at small large ⊢
  omega

theorem n_lt : signer.n < 2 ^ 2048 :=
  (Nat.sub_le _ _).trans_lt (by decide +kernel : 27 * 2 ^ 2043 < 2 ^ 2048)

theorem n_odd : signer.n % 2 = 1 := by
  have sum := signer.n_add_padded
  have even : 27 * 2 ^ 2043 % 2 = 0 := by decide +kernel
  have odd : bigEndian signer.padded % 2 = 1 := by
    have multiple : bigEndian paddingSha256Rsa2048 * 256 ^ 32 % 2 = 0 := by decide +kernel
    unfold padded
    rw [bigEndian_append, signer.length, Nat.add_mod, multiple, signer.odd]
  generalize 27 * 2 ^ 2043 = whole at sum even
  omega

theorem converted {number : Nat} (small : number < 2 ^ 2048) :
    (rsaConvertBigEndian (Memory.blank.store 0 (natBytes 256 number)) 64).length = 64 ∧
      value (rsaConvertBigEndian (Memory.blank.store 0 (natBytes 256 number)) 64) = number := by
  obtain ⟨length, isValue⟩ := @value_rsaConvertBigEndian (Memory.blank.store 0 (natBytes 256 number))
    (natBytes 256 number) 64 (Memory.store_holds _ _ _) (length_natBytes _ _)
  have bytes : 256 ^ 256 = 2 ^ 2048 := by decide +kernel
  rw [bigEndian_natBytes, bytes, Nat.mod_eq_of_lt small] at isValue
  exact ⟨length, isValue⟩

/-- The key as `rsa_mod_exp_sw` builds it. -/
def key : RsaPublicKey :=
  ⟨64, UInt32.ofNat (bigEndian signer.inverse),
    rsaConvertBigEndian (Memory.blank.store 0 (natBytes 256 signer.n)) 64,
    rsaConvertBigEndian (Memory.blank.store 0 (natBytes 256 (2 ^ 4096 % signer.n))) 64, 3⟩

theorem key_wellFormed : signer.key.WellFormed := by
  have modulus := converted signer.n_lt
  have positive : 0 < signer.n := by
    have odd := signer.n_odd
    omega
  have square := converted ((Nat.mod_lt (2 ^ 4096) positive).trans signer.n_lt)
  have isN : signer.key.n = signer.n := modulus.2
  refine ⟨⟨modulus.1, square.1⟩, ?_, ?_, ?_, ?_⟩
  · rw [isN]
    exact Nat.le_antisymm (Nat.size_le.mpr signer.n_lt) (Nat.lt_size.mpr signer.le_n)
  · rw [isN]
    exact signer.n_odd
  · have small : bigEndian signer.inverse < base := by
      have bound := bigEndian_lt signer.inverse
      rw [signer.cell] at bound
      exact bound
    have isInverse : signer.key.n0inv.toNat = bigEndian signer.inverse :=
      (toNat_ofNat _).trans (Nat.mod_eq_of_lt small)
    rw [isN, isInverse]
    exact signer.isInverse
  · have bits : 64 * signer.key.len = 4096 := rfl
    rw [isN, bits]
    exact square.2

/-- The key as it is found in a node. -/
def keyProp : KeyProp where
  rr := some (Memory.blank.store 0 (natBytes 256 (2 ^ 4096 % signer.n)))
  modulus := some (Memory.blank.store 0 (natBytes 256 signer.n))
  publicExponent := some (Memory.blank.store 0 [0, 0, 0, 0, 0, 0, 0, 3])
  n0inv := UInt32.ofNat (bigEndian signer.inverse)
  numBits := 2048

theorem keyProp_eq {blob : Fdt} {node : Nat} {required : Option (List UInt8)}
    (isProps : blob.getprop node = signer.props required)
    (isBehind : blob.behind node = fun _ => Memory.blank) : blob.keyProp node = signer.keyProp := by
  have inverse : signer.inverse.take 4 = signer.inverse := List.take_of_length_le signer.cell.le
  have bits : ((bigEndian [0, 0, 8, 0] : Nat) : Int).bmod (2 ^ 32) = 2048 := by decide
  unfold Fdt.keyProp Fdt.cell Fdt.pointer keyProp
  rw [isProps, isBehind]
  simp only [props, Option.map_some, ge_iff_le, signer.cell, le_refl, ↓reduceIte, inverse,
    KeyProp.mk.injEq, true_and]
  exact ⟨rfl, bits⟩

/-- The power of `3 * 2 ^ 681` is the padded checksum. -/
theorem power (behind : Memory) :
    (rsaModExpSw behind (natBytes 256 (3 * 2 ^ 681)) signer.keyProp).ret = .ok signer.padded := by
  have length := length_natBytes 256 (3 * 2 ^ 681)
  have isExponent : signer.key.exponent.toNat = 3 := rfl
  have isKey : signer.keyProp.key (Memory.blank.store 0 (natBytes 256 signer.n))
      (Memory.blank.store 0 (natBytes 256 (2 ^ 4096 % signer.n))) 64 = signer.key := by
    unfold KeyProp.key keyProp key
    simp only [Option.elim_some, RsaPublicKey.mk.injEq, true_and]
    decide
  obtain ⟨out, isOk, outLength, isPower⟩ := @rsaModExpSw_powers behind (natBytes 256 (3 * 2 ^ 681))
    signer.keyProp (Memory.blank.store 0 (natBytes 256 signer.n))
    (Memory.blank.store 0 (natBytes 256 (2 ^ 4096 % signer.n))) 64 rfl rfl rfl (by decide) length
    (by rw [isKey]; exact signer.key_wellFormed) (by rw [isKey, isExponent])
    (by rw [isKey, isExponent])
  have isValue : bigEndian (natBytes 256 (3 * 2 ^ 681)) = 3 * 2 ^ 681 := by
    rw [bigEndian_natBytes]
    decide +kernel
  have isThird : RsaPublicKey.seenExponent signer.key.exponent.toNat = 3 := by
    rw [isExponent]
    decide
  have isN : signer.key.n = signer.n := (converted signer.n_lt).2
  have cube : (3 * 2 ^ 681) ^ 3 = bigEndian signer.padded + signer.n := by
    rw [Nat.add_comm, signer.n_add_padded]
    decide +kernel
  have small : bigEndian signer.padded < signer.n := by
    have low := signer.padded_lt
    have high := signer.le_n
    have order : 27 * 2 ^ 2043 - 2 ^ 2047 ≤ 2 ^ 2047 := by decide +kernel
    exact low.trans_le (order.trans high)
  have same : out = signer.padded := by
    apply bigEndian_inj
    · rw [outLength, length, padded, List.length_append, signer.length]
      decide +kernel
    · rw [isPower, isKey, isValue, isThird, isN, cube, Nat.add_mod_right, Nat.mod_eq_of_lt small]
  rw [isOk, same]

/-- What the key has signed verifies under it. -/
theorem verifies (behind : Behind) {calculate : String → List (List UInt8) → Option (List UInt8)}
    {blob : Fdt} {node : Nat} {required : Option (List UInt8)} {keyname : Option (List UInt8)}
    {regions : List (List UInt8)} (isProps : blob.getprop node = signer.props required)
    (isBehind : blob.behind node = fun _ => Memory.blank)
    (isDigest : calculate "sha256" regions = some signer.digest) :
    VerifiesUnder behind calculate blob
      ⟨keyname, sampleAlgo, regions, natBytes 256 (3 * 2 ^ 681)⟩ node := by
  refine ⟨(show 32 ≤ 256 by decide), signer.digest, isDigest, ?_⟩
  have known : sampleAlgo ∈ checksumAlgos := List.mem_cons_of_mem _ (List.mem_cons_self ..)
  have length := length_natBytes 256 (3 * 2 ^ 681)
  have digest : (hashArray behind sampleAlgo signer.digest).take sampleAlgo.checksumLen =
      signer.digest := by
    have holds : (behind.hash.store 0 signer.digest).Holds 0 signer.digest :=
      Memory.store_holds _ _ _
    have loaded := holds.load
    rw [signer.length] at loaded
    unfold hashArray
    rw [Memory.take_load]
    exact loaded
  have isLength : ((natBytes 256 (3 * 2 ^ 681)).length : Int) = signer.keyProp.numBits.tdiv 8 := by
    rw [length]
    rfl
  have padLen : (natBytes 256 (3 * 2 ^ 681)).length = sampleAlgo.padLen := length
  have isExact := (@exact_of_accepted behind signer.keyProp (natBytes 256 (3 * 2 ^ 681))
    (hashArray behind sampleAlgo signer.digest) sampleAlgo (checksumAlgos_wellFormed known)
    (Memory.length_load _ _ _) ⟨(show (2048 : Int) ≤ 2048 ∧ (2048 : Int) ≤ 4096 by decide), rfl, rfl⟩
    isLength).mpr ⟨by rw [length], .inl padLen⟩
  have verified : Verified behind signer.keyProp (natBytes 256 (3 * 2 ^ 681))
      (hashArray behind sampleAlgo signer.digest) sampleAlgo := by
    refine ⟨isLength, padLen, ?_⟩
    rw [signer.power, digest]
    rfl
  unfold rsaVerifyWithKeynode
  dsimp only
  have there : ¬(signer.keyProp.numBits = 0 ∨ signer.keyProp.modulus.isNone = true) :=
    show ¬((2048 : Int) = 0 ∨ false = true) by decide
  rw [signer.keyProp_eq isProps isBehind, if_neg there]
  exact isExact.1.mpr verified

end SampleSigner

/-- The SHA-256 checksum of the three bytes `abc`. -/
def sampleSigner : SampleSigner where
  digest := [0xba, 0x78, 0x16, 0xbf, 0x8f, 0x01, 0xcf, 0xea, 0x41, 0x41, 0x40, 0xde, 0x5d, 0xae, 0x22,
    0x23, 0xb0, 0x03, 0x61, 0xa3, 0x96, 0x17, 0x7a, 0x9c, 0xb4, 0x10, 0xff, 0x61, 0xf2, 0x00, 0x15, 0xad]
  inverse := [0x58, 0xa0, 0x16, 0x25]
  length := by decide
  odd := by decide
  cell := by decide
  isInverse := by decide +kernel

/-- The checksums, as far as they are used. -/
def sampleCalculate (name : String) (regions : List (List UInt8)) : Option (List UInt8) :=
  if name = "sha256" ∧ regions = [ascii "abc"] then some sampleSigner.digest else none

/-- A control tree with two keys: `key-a` of 4096 bits, which is required for images, and
`key-b`. -/
def sampleBlob : Fdt where
  subnodes node := if node = 0 then [8] else if node = 8 then [16, 32] else []
  name node := if node = 8 then ascii "signature" else if node = 16 then ascii "key-a" else
    if node = 32 then ascii "key-b" else []
  getprop
    | 16, .required => some (ascii "image" ++ [0])
    | 16, .numBits => some [0, 0, 0x10, 0]
    | 16, .modulus => some (List.replicate 512 0xff)
    | 16, .rSquared => some (List.replicate 512 0)
    | 32, prop => sampleSigner.props none prop
    | _, _ => none
  behind _ _ := Memory.blank

/-- An image tree with a signature that hints at `key-b`. -/
def sampleFit : Fdt where
  subnodes node := if node = 64 then [96] else []
  name node := if node = 96 then ascii "signature@1" else []
  getprop
    | 96, .algo => some (ascii "sha256,rsa2048" ++ [0])
    | 96, .value => some (natBytes 256 (3 * 2 ^ 681))
    | 96, .keyNameHint => some (ascii "b" ++ [0])
    | _, _ => none
  behind _ _ := Memory.blank

/-- What is signed there. -/
def sampleSigned : Signed := ⟨some (ascii "b"), sampleAlgo, [ascii "abc"], natBytes 256 (3 * 2 ^ 681)⟩

theorem sampleFit_hasSignature {signed : Signed} :
    HasSignature sampleFit 64 (imageSigned sampleFit (ascii "abc")) signed ↔
      signed = sampleSigned := by
  have isSigned : imageSigned sampleFit (ascii "abc") 96 = .ok sampleSigned := rfl
  constructor
  · rintro ⟨noffset, member, -, result⟩
    have isNode : noffset = 96 := List.mem_singleton.mp (show noffset ∈ [96] from member)
    rw [isNode, isSigned] at result
    cases result
    rfl
  · rintro rfl
    exact ⟨96, List.mem_singleton_self _, by decide, isSigned⟩

/-- An image is accepted for a required key that has not signed it. -/
theorem image_accepted_unsigned :
    ¬ImageSound sampleBehind sampleCalculate sampleBlob sampleFit 64 (ascii "abc") := by
  intro sound
  have tried : TriedBesides sampleBlob sampleFit sampleSigned 32 :=
    ⟨8, by decide +kernel, .inl (by decide +kernel)⟩
  have verifies : VerifiesUnder sampleBehind sampleCalculate sampleBlob sampleSigned 32 :=
    sampleSigner.verifies sampleBehind rfl rfl (if_pos ⟨rfl, rfl⟩)
  have accepted := fitImageVerifyRequiredSigs_ok_iff.mpr fun key
      (_ : RequiredKey sampleBlob (ascii "image") key) =>
    ⟨sampleSigned, 32, sampleFit_hasSignature.mpr rfl, tried, verifies⟩
  obtain ⟨signed, isSigned, -, digest, -, underA⟩ := sound accepted 16
    ⟨8, by decide +kernel, by decide, by decide +kernel⟩
  rw [sampleFit_hasSignature.mp isSigned] at underA
  have bits : sampleSigned.value.length ≠
      ((sampleBlob.keyProp 16).numBits.tdiv 8 % 2 ^ 32).toNat := by
    have length : sampleSigned.value.length = 256 := length_natBytes 256 (3 * 2 ^ 681)
    rw [length]
    decide +kernel
  unfold rsaVerifyWithKeynode at underA
  dsimp only at underA
  rw [rsaVerifyKey_of_length bits] at underA
  split at underA
  · cases underA
  · cases underA

end HrppBoot.Fit
