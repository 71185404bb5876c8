import HrppBoot.Rsa.Verify

/-!
# Signatures of images and configurations

`rsa_verify` and `rsa_verify_with_keynode` of `lib/rsa/rsa-verify.c`, and the checks of
`common/image-sig.c`. Trees are seen through `libfdt`; in the structure block a zero byte follows
every property, so that a text ends with its property at the latest. The checksums, and the regions
that `fdt_find_regions` finds, are parameters.
-/

namespace HrppBoot.Fit

open ByteMemory Words Rsa

/-- A text of ASCII characters. -/
def ascii (text : String) : List UInt8 := text.toList.map fun c => UInt8.ofNat c.toNat

/-- The text at the beginning of a property. -/
def cString (bytes : List UInt8) : List UInt8 := bytes.takeWhile (· ≠ 0)

/-- The properties that are read, `rsa,…` and those of an image or configuration. -/
inductive PropName where
  | required
  | numBits
  | n0Inverse
  | exponent
  | modulus
  | rSquared
  | algo
  | value
  | keyNameHint
  | hashedNodes
  | hashedStrings
  | kernel
  | ramdisk
  | fdt
  | loadables
  | setup
  deriving DecidableEq

/-- A flattened device tree; nodes are known by their offsets. -/
structure Fdt where
  /-- The subnodes of a node, in order; there are none where there is no node. -/
  subnodes : Nat → List Nat
  /-- `fdt_get_name` -/
  name : Nat → List UInt8
  /-- `fdt_getprop` -/
  getprop : Nat → PropName → Option (List UInt8)
  behind : Nat → PropName → Memory

/-- A FIT image. -/
structure FitImage where
  tree : Fdt
  bytes : Memory
  offDtStrings : Nat
  /-- `fdt_find_regions` for a list of nodes, with `data` left out. -/
  findRegions : List (List UInt8) → Option (List Span)

def fitSigNodename : List UInt8 := ascii "signature"

def fdtNodenameEq (name s : List UInt8) : Bool :=
  s.isPrefixOf name &&
    match name.drop s.length with
    | [] => true
    | c :: _ => c == 0x40 && !s.contains 0x40

namespace Fdt

variable (fdt : Fdt)

/-- `fdt_subnode_offset` -/
def subnodeOffset (parent : Nat) (name : List UInt8) : Option Nat :=
  (fdt.subnodes parent).find? fun node => fdtNodenameEq (fdt.name node) name

/-- A property as it lies in memory. -/
def pointer (node : Nat) (prop : PropName) : Option Memory :=
  (fdt.getprop node prop).map fun bytes => (fdt.behind node prop).store 0 bytes

/-- The cell of `fdtdec_get_int`, with the default zero. -/
def cell (node : Nat) (prop : PropName) : Nat :=
  match fdt.getprop node prop with
  | some bytes => if bytes.length ≥ 4 then bigEndian (bytes.take 4) else 0
  | none => 0

/-- The key that `rsa_verify_with_keynode` finds in a node. -/
def keyProp (node : Nat) : KeyProp where
  rr := fdt.pointer node .rSquared
  modulus := fdt.pointer node .modulus
  publicExponent :=
    match fdt.getprop node .exponent with
    | some bytes => if bytes.length < 8 then none else fdt.pointer node .exponent
    | none => none
  n0inv := UInt32.ofNat (fdt.cell node .n0Inverse)
  numBits := (fdt.cell node .numBits : Int).bmod (2 ^ 32)

end Fdt

/-- The signature algorithms: the name and the checksum of each of `image_sig_algos`. -/
def imageSigAlgos : List (List UInt8 × ChecksumAlgo) :=
  List.zip [ascii "sha1,rsa2048", ascii "sha256,rsa2048", ascii "sha256,rsa4096"] checksumAlgos

def imageGetSigAlgo (name : List UInt8) : Option ChecksumAlgo :=
  (imageSigAlgos.find? fun algo => algo.1 == name).map Prod.snd

/-- What is signed, by `struct image_sign_info`, the contents of the regions and the signature. -/
structure Signed where
  keyname : Option (List UInt8)
  algo : ChecksumAlgo
  regions : List (List UInt8)
  value : List UInt8

section Checks

variable (behind : Behind) (calculate : String → List (List UInt8) → Option (List UInt8))
  (blob : Fdt)

/-- `rsa_verify_with_keynode`; an offset below zero is `none`. -/
def rsaVerifyWithKeynode (algo : ChecksumAlgo) (hash sig : List UInt8) :
    Option Nat → Except Errno Unit
  | none => .error .ebadf
  | some node =>
    let prop := blob.keyProp node
    if prop.numBits = 0 ∨ prop.modulus.isNone then .error .efault
    else (rsaVerifyKey behind (some prop) (some sig) (some hash) (some algo)).ret

/-- The loop of `rsa_verify` over the keys; `node` was tried before. -/
def tryKeys (verify : Option Nat → Except Errno Unit) (node : Option Nat) :
    List Nat → Except Errno Unit → Except Errno Unit
  | [], ret => ret
  | noffset :: rest, ret =>
    if some noffset = node then tryKeys verify node rest ret
    else
      match verify (some noffset) with
      | .ok () => .ok ()
      | .error e => tryKeys verify node rest (.error e)

/-- The key that is hinted at, and then those that the loop walks through. -/
def verifyHinted (verify : Option Nat → Except Errno Unit) (node : Option Nat) (walked : List Nat) :
    Except Errno Unit :=
  match verify node with
  | .ok () => .ok ()
  | .error e => tryKeys verify node walked (.error e)

/-- The keys that `rsa_verify` tries in turn, the required one first. -/
def verifyWithKeys (verify : Option Nat → Except Errno Unit) (requiredKeynode node : Option Nat)
    (walked : List Nat) : Except Errno Unit :=
  match requiredKeynode with
  | none => verifyHinted verify node walked
  | some key =>
    match verify (some key) with
    | .ok () => .ok ()
    | .error _ => verifyHinted verify node walked

/-- The node with the keys. -/
def sigNode : Option Nat := blob.subnodeOffset 0 fitSigNodename

/-- The key that is hinted at; the name is cut to 99 characters. -/
def hintNode (sigNode : Nat) (keyname : Option (List UInt8)) : Option Nat :=
  blob.subnodeOffset sigNode ((ascii "key-" ++ keyname.getD (ascii "<NULL>")).take 99)

/-- The array `hash` of `rsa_verify`: the checksum, and what was there before. -/
def hashArray (algo : ChecksumAlgo) (digest : List UInt8) : List UInt8 :=
  (behind.hash.store 0 digest).load 0 algo.padLen

/-- `rsa_verify`; the keys are looked for in `blob`, but the loop walks through the image. -/
def rsaVerify (fit : Fdt) (signed : Signed) (requiredKeynode : Option Nat) : Except Errno Unit :=
  if signed.algo.checksumLen > signed.algo.padLen then .error .einval
  else
    match sigNode blob with
    | none => .error .enoent
    | some sigNode =>
      match calculate signed.algo.name signed.regions with
      | none => .error .einval
      | some digest =>
        verifyWithKeys (rsaVerifyWithKeynode behind blob signed.algo
            (hashArray behind signed.algo digest) signed.value)
          requiredKeynode (hintNode blob sigNode signed.keyname) (fit.subnodes sigNode)

/-- `fit_image_setup_verify`: the hint and the algorithm. -/
def fitImageSetupVerify (fit : Fdt) (noffset : Nat) :
    Except String (Option (List UInt8) × ChecksumAlgo) :=
  match fit.getprop noffset .algo with
  | none => .error "Can't get hash algo property"
  | some algo =>
    match imageGetSigAlgo (cString algo) with
    | none => .error "Unknown signature algorithm"
    | some algo => .ok ((fit.getprop noffset .keyNameHint).map cString, algo)

/-- What a signature node of an image signs. -/
def imageSigned (fit : Fdt) (data : List UInt8) (noffset : Nat) : Except String Signed :=
  match fitImageSetupVerify fit noffset with
  | .error text => .error text
  | .ok (keyname, algo) =>
    match fit.getprop noffset .value with
    | none => .error "Can't get hash value property"
    | some value => .ok ⟨keyname, algo, [data], value⟩

def imageMaxHashedNodes : Nat := 100

/-- The texts in a property, each ended by a zero byte or by the end. -/
def texts : List UInt8 → List (List UInt8)
  | [] => []
  | 0 :: rest => [] :: texts rest
  | c :: rest =>
    match texts rest with
    | [] => [[c]]
    | text :: more => (c :: text) :: more

/-- The nodes named in the `hashed-nodes` of a signature node, as many as there are zero bytes. -/
def hashedNodes (fit : Fdt) (noffset : Nat) : List (List UInt8) :=
  let prop := (fit.getprop noffset .hashedNodes).getD []
  (texts prop).take (prop.count 0)

/-- The region of the strings. -/
def stringsRegion (fit : FitImage) (noffset : Nat) : List Span :=
  match fit.tree.pointer noffset .hashedStrings with
  | none => []
  | some strings =>
    [⟨(fit.offDtStrings + bigEndian (strings.load 0 4)) % 2 ^ 32, bigEndian (strings.load 4 4)⟩]

/-- The regions that a signature node of a configuration signs. -/
def configRegions (fit : FitImage) (noffset : Nat) : Except String (List Span) :=
  let count := ((fit.tree.getprop noffset .hashedNodes).getD []).count 0
  if count = 0 then .error "Can't get hashed-nodes property"
  else if count > imageMaxHashedNodes then .error "Number of hashed nodes exceeds maximum"
  else
    let maxRegions := 20 + count * 7
    match fit.findRegions (hashedNodes fit.tree noffset) with
    | none => .error "Failed to hash configuration"
    | some regions =>
      if regions.length = 0 then .error "No data to hash"
      else if regions.length ≥ maxRegions - 1 then .error "Too many hash regions"
      else .ok (regions ++ stringsRegion fit noffset)

/-- What a signature node of a configuration signs. -/
def configSigned (fit : FitImage) (noffset : Nat) : Except String Signed :=
  match fitImageSetupVerify fit.tree noffset with
  | .error text => .error text
  | .ok (keyname, algo) =>
    match fit.tree.getprop noffset .value with
    | none => .error "Can't get hash value property"
    | some value =>
      match configRegions fit noffset with
      | .error text => .error text
      | .ok regions =>
        .ok ⟨keyname, algo, regions.map fun region => fit.bytes.load region.start region.length, value⟩

/-- The end of `fit_image_check_sig` and of `fit_config_check_sig`. -/
def checkSigned (fit : Fdt) (requiredKeynode : Option Nat) : Except String Signed → Except String Unit
  | .error text => .error text
  | .ok signed =>
    match rsaVerify behind calculate blob fit signed requiredKeynode with
    | .ok () => .ok ()
    | .error _ => .error "Verification failed"

def fitImageCheckSig (fit : Fdt) (data : List UInt8) (requiredKeynode : Option Nat) (noffset : Nat) :
    Except String Unit :=
  checkSigned behind calculate blob fit requiredKeynode (imageSigned fit data noffset)

def fitConfigCheckSig (fit : FitImage) (requiredKeynode : Option Nat) (noffset : Nat) : Except String Unit :=
  checkSigned behind calculate blob fit.tree requiredKeynode (configSigned fit noffset)

/-- The loop of `fit_image_verify_sig` and of `fit_config_verify_sig` over the subnodes. -/
def verifySig (fit : Fdt) (check : Nat → Except String Unit) : List Nat → Except Errno Unit
  | [] => .error .eperm
  | noffset :: rest =>
    if fitSigNodename.isPrefixOf (fit.name noffset) then
      match check noffset with
      | .ok () => .ok ()
      | .error _ => verifySig fit check rest
    else verifySig fit check rest

/-- `fit_image_verify_sig`; no key is passed on. -/
def fitImageVerifySig (fit : Fdt) (image : Nat) (data : List UInt8) : Except Errno Unit :=
  verifySig fit (fitImageCheckSig behind calculate blob fit data none) (fit.subnodes image)

def fitConfigVerifySig (fit : FitImage) (conf key : Nat) : Except Errno Unit :=
  verifySig fit.tree (fitConfigCheckSig behind calculate blob fit (some key)) (fit.tree.subnodes conf)

/-- A key is required for a kind of things. -/
def isRequired (kind : List UInt8) (key : Nat) : Bool :=
  (blob.getprop key .required).map cString == some kind

/-- The loops of the `_verify_required_sigs` functions over the keys, with the number of keys that
are required and succeeded. -/
def verifyRequired (kind : List UInt8) (verify : Nat → Except Errno Unit) :
    (count : Nat) → List Nat → Except Errno Unit × Nat
  | count, [] => (.ok (), count)
  | count, key :: rest =>
    if isRequired blob kind key then
      match verify key with
      | .error e => (.error e, count)
      | .ok () => verifyRequired kind verify (count + 1) rest
    else verifyRequired kind verify count rest

/-- `fit_image_verify_required_sigs`, with `*no_sigsp`. -/
def fitImageVerifyRequiredSigs (fit : Fdt) (image : Nat) (data : List UInt8) :
    Except Errno Unit × Bool :=
  match sigNode blob with
  | none => (.ok (), true)
  | some sigNode =>
    match verifyRequired blob (ascii "image") (fun _ => fitImageVerifySig behind calculate blob fit image
        data) 0 (blob.subnodes sigNode) with
    | (.error e, _) => (.error e, true)
    | (.ok (), count) => (.ok (), count = 0)

def fitConfigVerifyRequiredSigs (fit : FitImage) (conf : Nat) : Except Errno Unit :=
  match sigNode blob with
  | none => .ok ()
  | some sigNode =>
    (verifyRequired blob (ascii "conf") (fitConfigVerifySig behind calculate blob fit conf) 0
      (blob.subnodes sigNode)).1

end Checks

end HrppBoot.Fit
