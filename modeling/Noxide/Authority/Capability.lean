import Noxide.Authority.Security

/-!
# Edit capabilities

An edit secret names a key of the host, a capability version and the MAC that the key gives
for the storage identity, the record and that version.  Rotating the signing key retains the
old keys, so their secrets stay valid; moving a record's version on revokes them.

HMAC-SHA256 and base64 are parameters.

Main results:

- Theorem {lit}`verifyEdit_ok`: a secret verifies exactly when its version is the current one
  and its MAC is the one that the named key gives.
- Theorem {lit}`rotateEditKey_retains`: a new signing key leaves every retained key its MAC.
-/

namespace Noxide

open Checked

/-! ## Keys -/

structure EditKey where
  id : Nat
  key : List UInt8
  signing : Bool
  deriving DecidableEq, Repr

abbrev EditKeys := List EditKey

/-- HMAC-SHA256 under a key over resource, record and version, and unpadded base64. -/
structure EditCodec where
  mac : List UInt8 → Nat → Nat → Nat → List UInt8
  encode : List UInt8 → String
  decode : String → Option (List UInt8)

def u32Max : Nat := 4294967295

/-- The source's {lit}`rotate_edit_key`, with the key it draws. -/
def rotateEditKey (drawn : List UInt8) (keys : EditKeys) : Result EditKeys := do
  let id := (keys.map (·.id)).foldr max 0 + 1
  check "edit key id exhausted" (id ≤ u32Max)
  return keys.map (fun old => { old with signing := false }) ++ [⟨id, drawn, true⟩]

def signingEditKey (keys : EditKeys) : Result Nat := do
  check "duplicate edit key id" (keys.map (·.id)).Nodup
  match keys.filter (·.signing) with
  | [key] => return key.id
  | _ => .error (.message "one signing edit key required")

section Secrets

variable (codec : EditCodec) (keys : EditKeys)

def editMac (keyId resource id version : Nat) : Result (List UInt8) := do
  let key ← need "unknown edit key" (keys.find? fun key => key.id = keyId)
  return codec.mac key.key resource id version

def editSecret (keyId resource id version : Nat) : Result String := do
  check "invalid capability version" (0 < version)
  let mac ← editMac codec keys keyId resource id version
  return "nxc1." ++ toString keyId ++ "." ++ toString version ++ "." ++ codec.encode mac

/-! ## Verification -/

/-- An unsigned 32-bit parse. -/
def parseU32 (text : String) : Option Nat :=
  (Decimal.parseU64 text).filter fun n => n ≤ u32Max

def verifyEdit (secret : String) (resource id : Nat) (version : Int) : Result Unit := do
  check "invalid edit secret" (secret.utf8ByteSize ≤ 128 ∧ 0 < version)
  match secret.toList.splitOn '.' with
  | [tag, key, supplied, mac] => do
      check "invalid edit secret" (String.ofList tag = "nxc1")
      let key ← need "ParseIntError" (parseU32 (String.ofList key))
      let supplied ← need "ParseIntError" (Decimal.parseU64 (String.ofList supplied))
      check "revoked edit secret" ((supplied : Int) = version)
      let expected ← editMac codec keys key resource id supplied
      let given ← need "DecodeError" (codec.decode (String.ofList mac))
      check "invalid edit secret" (given = expected)
  | _ => .error (.message "invalid edit secret")

/-- What the text of a secret gives. -/
structure SuppliedSecret where
  key : Nat
  version : Nat
  mac : List UInt8
  deriving DecidableEq

/-- The text of a secret, of at most 128 bytes. -/
def SuppliedSecret.parse (secret : String) : Option SuppliedSecret :=
  match secret.toList.splitOn '.' with
  | [tag, key, version, mac] =>
      if secret.utf8ByteSize ≤ 128 ∧ String.ofList tag = "nxc1" then do
        let key ← parseU32 (String.ofList key)
        let version ← Decimal.parseU64 (String.ofList version)
        let mac ← codec.decode (String.ofList mac)
        return ⟨key, version, mac⟩
      else none
  | _ => none

/-- A key of the host gives the MAC of the secret. -/
def SuppliedSecret.Authentic (secret : SuppliedSecret) (resource id : Nat) : Prop :=
  ∃ key, (keys.find? fun key => key.id = secret.key) = some key
    ∧ secret.mac = codec.mac key.key resource id secret.version

variable {codec keys}

theorem editMac_ok {keyId resource id version : Nat} {mac : List UInt8} :
    editMac codec keys keyId resource id version = .ok mac ↔
      ∃ key, (keys.find? fun key => key.id = keyId) = some key
        ∧ mac = codec.mac key.key resource id version := by
  simp only [editMac, need, bind_eq_ok, context_eq_ok]
  constructor
  · rintro ⟨key, found, h⟩
    cases h
    exact ⟨key, found, rfl⟩
  · rintro ⟨key, found, rfl⟩
    exact ⟨key, found, rfl⟩

/-- A secret verifies exactly when its version is the current one and its MAC is the one that
the key it names gives for this record and version. -/
theorem verifyEdit_ok {secret : String} {resource id : Nat} {version : Int} :
    verifyEdit codec keys secret resource id version = .ok () ↔
      ∃ supplied, SuppliedSecret.parse codec secret = some supplied ∧ 0 < version
        ∧ (supplied.version : Int) = version ∧ supplied.Authentic codec keys resource id := by
  unfold verifyEdit SuppliedSecret.parse
  split
  · rename_i tag key supplied mac _
    simp only [check, need, bind_eq_ok, ensure_eq_ok, context_eq_ok, editMac_ok]
    constructor
    · rintro ⟨_, ⟨short, positive⟩, _, tagged, k, parsedKey, v, parsedVersion, _, current, expected,
        ⟨found, here, gives⟩, given, decoded, same⟩
      refine ⟨⟨k, v, given⟩, ?_, positive, current, found, here, same.trans gives⟩
      rw [if_pos ⟨short, tagged⟩, parsedKey, parsedVersion, decoded]
      rfl
    · rintro ⟨s, parsed, positive, current, found, here, same⟩
      split at parsed
      · rename_i shape
        cases parsedKey : parseU32 (String.ofList key) with
        | none => simp [parsedKey] at parsed
        | some k =>
            cases parsedVersion : Decimal.parseU64 (String.ofList supplied) with
            | none => simp [parsedKey, parsedVersion] at parsed
            | some v =>
                cases decoded : codec.decode (String.ofList mac) with
                | none => simp [parsedKey, parsedVersion, decoded] at parsed
                | some given =>
                    simp only [parsedKey, parsedVersion, decoded, Option.bind_eq_bind, Option.bind_some,
                      Option.pure_def, Option.some.injEq] at parsed
                    subst parsed
                    exact ⟨(), ⟨shape.1, positive⟩, (), shape.2, k, rfl, v, rfl, (), current, _,
                      ⟨found, here, rfl⟩, given, rfl, same⟩
      · cases parsed
  · constructor
    · simp only [bind_eq_ok]
      rintro ⟨_, _, h⟩
      cases h
    · rintro ⟨_, h, _⟩
      cases h

/-- One version at most has a secret that verifies. -/
theorem verifyEdit_version {secret : String} {resource id resource' id' : Nat} {version version' : Int}
    {keys' : EditKeys} (h : verifyEdit codec keys secret resource id version = .ok ())
    (h' : verifyEdit codec keys' secret resource' id' version' = .ok ()) : version = version' := by
  rcases verifyEdit_ok.mp h with ⟨s, parsed, _, current, _⟩
  rcases verifyEdit_ok.mp h' with ⟨s', parsed', _, current', _⟩
  rw [parsed] at parsed'
  cases parsed'
  exact current.symm.trans current'

end Secrets

/-! ## Key rotation -/

theorem le_foldr_max {n : Nat} {ids : List Nat} (member : n ∈ ids) : n ≤ ids.foldr max 0 := by
  induction ids with
  | nil => cases member
  | cons first rest ih =>
      rw [List.foldr_cons]
      rcases List.mem_cons.mp member with rfl | later
      · exact le_max_left _ _
      · exact le_trans (ih later) (le_max_right _ _)

/-- Every key that was retained gives the MACs it gave before. -/
theorem rotateEditKey_retains {codec : EditCodec} {drawn : List UInt8} {keys keys' : EditKeys}
    {keyId resource id version : Nat} {mac : List UInt8} (rotated : rotateEditKey drawn keys = .ok keys')
    (h : editMac codec keys keyId resource id version = .ok mac) :
    editMac codec keys' keyId resource id version = .ok mac := by
  rcases editMac_ok.mp h with ⟨key, found, rfl⟩
  simp only [rotateEditKey, check, bind_eq_ok, ensure_eq_ok] at rotated
  rcases rotated with ⟨_, _, rotated⟩
  cases rotated
  refine editMac_ok.mpr ⟨{ key with signing := false }, ?_, rfl⟩
  rw [List.find?_append, List.find?_map]
  simp only [Function.comp_def, found, Option.map_some, Option.some_or]

/-- The new key is the one that signs. -/
theorem rotateEditKey_signs {drawn : List UInt8} {keys keys' : EditKeys}
    (distinct : (keys.map (·.id)).Nodup) (rotated : rotateEditKey drawn keys = .ok keys') :
    ∃ id, signingEditKey keys' = .ok id ∧ id ∉ keys.map (·.id) := by
  simp only [rotateEditKey, check, bind_eq_ok, ensure_eq_ok] at rotated
  rcases rotated with ⟨_, _, rotated⟩
  cases rotated
  have fresh : (keys.map (·.id)).foldr max 0 + 1 ∉ keys.map (·.id) := fun member => by
    have below := le_foldr_max member
    omega
  refine ⟨_, ?_, fresh⟩
  have ids : (keys.map (fun old => ({ old with signing := false } : EditKey)) ++
      [(⟨(keys.map (·.id)).foldr max 0 + 1, drawn, true⟩ : EditKey)]).map (·.id)
        = keys.map (·.id) ++ [(keys.map (·.id)).foldr max 0 + 1] := by
    rw [List.map_append, List.map_map]
    rfl
  have signing : (keys.map (fun old => ({ old with signing := false } : EditKey))).filter (·.signing) = [] := by
    rw [List.filter_eq_nil_iff]
    intro key member
    rcases List.mem_map.mp member with ⟨old, _, rfl⟩
    simp
  unfold signingEditKey
  rw [ids, List.filter_append, signing]
  have distinct' : (keys.map (·.id) ++ [(keys.map (·.id)).foldr max 0 + 1]).Nodup := by
    rw [List.nodup_append]
    refine ⟨distinct, List.nodup_singleton _, fun a member b member' same => ?_⟩
    rw [List.mem_singleton] at member'
    rw [same, member'] at member
    exact fresh member
  simp [check, ensure, distinct']

end Noxide
