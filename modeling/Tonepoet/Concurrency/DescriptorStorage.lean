import Mathlib.Data.Finset.Card
import Tonepoet.Concurrency.Leases
import Tonepoet.Rust

/-!
# Stored lease descriptors (concurrency.rs:166-258, 770-1109)

The claims of a descriptor are stored with their paths in one table. A path is a string of bytes here; the table is
keyed by `PathBuf`, which compares components, so two spellings of one path share an entry. `serde_json` enters as
functions between stored values and bytes.
-/

namespace Concurrency.Storage

open Rust

/-! ## Paths -/

/-- `PathBuf` on Unix. -/
abbrev OsPath := List UInt8

def slash : UInt8 := 47
def dot : UInt8 := 46

/-- A piece between two slashes; a dot counts only where a relative path starts. -/
def parseComponent (leading : Bool) (part : List UInt8) : Option Component :=
  if part = [] then none
  else if part = [dot] then if leading then some .curDir else none
  else if part = [dot, dot] then some .parentDir
  else some (.normal part)

/-- `Path::components`. -/
def components (path : OsPath) : List Component :=
  let hasRoot := path.head? == some slash
  (if hasRoot then [.rootDir] else []) ++
    (path.splitOn slash).zipIdx.filterMap fun (part, i) => parseComponent (i == 0 && !hasRoot) part

/-- `PathBuf`'s `==`. -/
def SamePath (p q : OsPath) : Prop := components p = components q

instance (p q : OsPath) : Decidable (SamePath p q) := inferInstanceAs (Decidable (_ = _))

/-- `EncodedPath` and `DecodedPath` of `lossless_path_serde`. -/
inductive EncodedPath where
  | utf8 (text : String)
  | unixBytes (bytes : List UInt8)

/-- `encode` (concurrency.rs:190). -/
def encodePath (path : OsPath) : EncodedPath :=
  match String.fromUTF8? ⟨path.toArray⟩ with
  | some text => .utf8 text
  | none => .unixBytes path

/-- `decode` (concurrency.rs:212). -/
def decodePath : EncodedPath → OsPath
  | .utf8 text => text.toUTF8.data.toList
  | .unixBytes bytes => bytes

theorem decodePath_encodePath (path : OsPath) : decodePath (encodePath path) = path := by
  rw [encodePath, String.fromUTF8?]
  split
  · rename_i text h
    split at h
    · cases h
      rfl
    · cases h
  · rfl

/-! ## Descriptors, with their paths or with indices of a table -/

/-- `ResolvedPathIdentity`; with indices for paths it is the identity of a compact claim. -/
structure ResolvedPathIdentity (P : Type) where
  original : P
  namespacePath : P
  namespaceDependencies : List P
  resolvedIoPath : P
  canonicalExistingAncestor : P
  suffix : P
  dev : Option UInt64
  ino : Option UInt64
  deriving DecidableEq

structure PathClaim (P : Type) where
  identity : ResolvedPathIdentity P
  mode : ClaimMode
  scope : ClaimScope
  deriving DecidableEq

structure OwnerProcessIdentity where
  pid : UInt64
  startTicks : UInt64
  bootIdHash : UInt64
  processToken : UInt64
  deriving DecidableEq

structure LeaseDescriptor (P : Type) where
  schema : UInt32
  descriptorId : Uuid
  family : LeaseFamily
  owner : OwnerProcessIdentity
  createdUnixMs : UInt64
  claims : List (PathClaim P)
  coordinationGroup : Option String
  deriving DecidableEq

/-- `LeaseDescriptorWireV2` and `LeaseDescriptorWireV3`: a table of paths, and claims with indices. -/
structure LeaseDescriptorWire (P : Type) where
  schema : UInt32
  descriptorId : Uuid
  family : LeaseFamily
  owner : OwnerProcessIdentity
  createdUnixMs : UInt64
  paths : List P
  claims : List (PathClaim UInt32)
  coordinationGroup : Option String

def descriptorSchemaLegacy : UInt32 := 1
def descriptorSchemaInternedObjects : UInt32 := 2
def descriptorSchema : UInt32 := 3

section
variable {P Q : Type} {m : Type → Type} [Monad m]

/-- The paths of a claim, in the order in which the code goes through them. -/
def ResolvedPathIdentity.mapPaths (identity : ResolvedPathIdentity P) (f : P → m Q) : m (ResolvedPathIdentity Q) := do
  let original ← f identity.original
  let namespacePath ← f identity.namespacePath
  let namespaceDependencies ← identity.namespaceDependencies.mapM f
  let resolvedIoPath ← f identity.resolvedIoPath
  let canonicalExistingAncestor ← f identity.canonicalExistingAncestor
  let suffix ← f identity.suffix
  return ⟨original, namespacePath, namespaceDependencies, resolvedIoPath, canonicalExistingAncestor, suffix, identity.dev, identity.ino⟩

def PathClaim.mapPaths (claim : PathClaim P) (f : P → m Q) : m (PathClaim Q) := do
  let identity ← claim.identity.mapPaths f
  return ⟨identity, claim.mode, claim.scope⟩

/-- The paths of an identity. -/
def ResolvedPathIdentity.paths (identity : ResolvedPathIdentity P) : List P :=
  identity.original :: identity.namespacePath :: (identity.namespaceDependencies ++
    [identity.resolvedIoPath, identity.canonicalExistingAncestor, identity.suffix])

def LeaseDescriptor.paths (d : LeaseDescriptor P) : List P := d.claims.flatMap fun claim => claim.identity.paths

end

/-! ## The table -/

/-- `DescriptorPathInterner`: `indexes` is keyed by path comparison. -/
structure DescriptorPathInterner where
  paths : List OsPath
  indexes : List (OsPath × UInt32)

/-- `indexes.get(path)`. -/
def DescriptorPathInterner.get (self : DescriptorPathInterner) (path : OsPath) : Option UInt32 :=
  (self.indexes.find? fun entry => SamePath entry.1 path).map Prod.snd

/-- `intern` (concurrency.rs:891). -/
def intern (path : OsPath) : StateT DescriptorPathInterner (Except String) UInt32 := fun self =>
  match self.get path with
  | some index => .ok (index, self)
  | none =>
    if self.paths.length < 2 ^ 32 then
      let index := UInt32.ofNat self.paths.length
      .ok (index, ⟨self.paths ++ [path], self.indexes ++ [(path, index)]⟩)
    else .error "persistent lease descriptor contains too many distinct paths"

/-- `compact_claim_v2` and `compact_claim_v3` (concurrency.rs:906-959). -/
def compactClaim (claim : PathClaim OsPath) : StateT DescriptorPathInterner (Except String) (PathClaim UInt32) :=
  claim.mapPaths intern

/-- `compact_path` (concurrency.rs:961). -/
def compactPath (paths : List OsPath) (index : UInt32) : Except String OsPath :=
  match paths[index.toNat]? with
  | some path => .ok path
  | none => .error s!"persistent lease compact path index {index} is outside the path table"

/-- `expand_claim_v2` and `expand_claim_v3` (concurrency.rs:967-1012). -/
def expandClaim (paths : List OsPath) (claim : PathClaim UInt32) : Except String (PathClaim OsPath) :=
  claim.mapPaths (compactPath paths)

/-! ## Encoding and decoding -/

/-- The stored form of a body, path by path. -/
def LeaseDescriptorWire.serialized (wire : LeaseDescriptorWire OsPath) : LeaseDescriptorWire EncodedPath :=
  { wire with paths := wire.paths.map encodePath }

def LeaseDescriptorWire.deserialized (wire : LeaseDescriptorWire EncodedPath) : LeaseDescriptorWire OsPath :=
  { wire with paths := wire.paths.map decodePath }

def ResolvedPathIdentity.deserialized (identity : ResolvedPathIdentity EncodedPath) : ResolvedPathIdentity OsPath where
  original := decodePath identity.original
  namespacePath := decodePath identity.namespacePath
  namespaceDependencies := identity.namespaceDependencies.map decodePath
  resolvedIoPath := decodePath identity.resolvedIoPath
  canonicalExistingAncestor := decodePath identity.canonicalExistingAncestor
  suffix := decodePath identity.suffix
  dev := identity.dev
  ino := identity.ino

def LeaseDescriptor.deserialized (d : LeaseDescriptor EncodedPath) : LeaseDescriptor OsPath :=
  { d with claims := d.claims.map fun claim => ⟨claim.identity.deserialized, claim.mode, claim.scope⟩ }

/-- `serde_json` on the values stored here: each layout of a body, and the probe for its schema. -/
structure SerdeJson where
  toVecV2 : LeaseDescriptorWire EncodedPath → Except String (List UInt8)
  toVecV3 : LeaseDescriptorWire EncodedPath → Except String (List UInt8)
  schemaOf : List UInt8 → Except String UInt32
  fromSliceV1 : List UInt8 → Except String (LeaseDescriptor EncodedPath)
  fromSliceV2 : List UInt8 → Except String (LeaseDescriptorWire EncodedPath)
  fromSliceV3 : List UInt8 → Except String (LeaseDescriptorWire EncodedPath)

/-- A stored body survives `serde_json` in the layout of its schema. -/
structure SerdeJson.RoundTrips (json : SerdeJson) (wire : LeaseDescriptorWire EncodedPath) : Prop where
  schemaTwo : wire.schema = descriptorSchemaInternedObjects →
    ∃ bytes, json.toVecV2 wire = .ok bytes ∧ json.schemaOf bytes = .ok wire.schema ∧ json.fromSliceV2 bytes = .ok wire
  schemaThree : wire.schema = descriptorSchema →
    ∃ bytes, json.toVecV3 wire = .ok bytes ∧ json.schemaOf bytes = .ok wire.schema ∧ json.fromSliceV3 bytes = .ok wire

/-- The body of a descriptor with a table of its paths. -/
def compactDescriptor (schema : UInt32) (d : LeaseDescriptor OsPath) : Except String (LeaseDescriptorWire OsPath) := do
  let (claims, interner) ← (d.claims.mapM compactClaim).run ⟨[], []⟩
  return ⟨schema, d.descriptorId, d.family, d.owner, d.createdUnixMs, interner.paths, claims, d.coordinationGroup⟩

/-- `encode_descriptor_for_storage` (concurrency.rs:1014). -/
def encodeDescriptorForStorage (json : SerdeJson) (d : LeaseDescriptor OsPath) : Except String (List UInt8) := do
  if d.schema ≠ descriptorSchema then
    let schema := d.schema.toNat
    .error s!"cannot encode persistent lease schema {schema} with schema-3 encoder"
  else do
    let wire ← compactDescriptor descriptorSchema d
    (json.toVecV3 wire.serialized).mapError fun error => s!"serialize persistent lease schema 3: {error}"

/-- `encode_descriptor_schema_two_for_test` (concurrency.rs:1042): how schema 2 was written. -/
def encodeDescriptorSchemaTwo (json : SerdeJson) (d : LeaseDescriptor OsPath) : Except String (List UInt8) := do
  let wire ← compactDescriptor descriptorSchemaInternedObjects d
  (json.toVecV2 wire.serialized).mapError fun error => s!"serialize persistent lease schema 2: {error}"

/-- A body with its claims expanded. -/
def expandWire (schema : UInt32) (wire : LeaseDescriptorWire OsPath) : Except String (LeaseDescriptor OsPath) := do
  let claims ← wire.claims.mapM (expandClaim wire.paths)
  return ⟨schema, wire.descriptorId, wire.family, wire.owner, wire.createdUnixMs, claims, wire.coordinationGroup⟩

/-- `decode_descriptor_from_storage` (concurrency.rs:1065). -/
def decodeDescriptorFromStorage (json : SerdeJson) (bytes : List UInt8) : Except String (LeaseDescriptor OsPath) := do
  let schema ← (json.schemaOf bytes).mapError fun error => s!"decode persistent lease schema: {error}"
  if schema = descriptorSchemaLegacy then
    LeaseDescriptor.deserialized <$> (json.fromSliceV1 bytes).mapError fun error => s!"decode persistent lease schema 1: {error}"
  else if schema = descriptorSchemaInternedObjects then do
    let wire ← (json.fromSliceV2 bytes).mapError fun error => s!"decode persistent lease schema 2: {error}"
    expandWire descriptorSchemaInternedObjects wire.deserialized
  else if schema = descriptorSchema then do
    let wire ← (json.fromSliceV3 bytes).mapError fun error => s!"decode persistent lease schema 3: {error}"
    expandWire descriptorSchema wire.deserialized
  else
    let schema := schema.toNat
    .error s!"unsupported persistent lease schema {schema}"

/-! ## Claims alike -/

section
variable {P Q R : Type}

/-- Two identities, path by path in a relation. -/
structure ResolvedPathIdentity.Rel (r : P → Q → Prop) (a : ResolvedPathIdentity P) (b : ResolvedPathIdentity Q) : Prop where
  original : r a.original b.original
  namespacePath : r a.namespacePath b.namespacePath
  namespaceDependencies : List.Forall₂ r a.namespaceDependencies b.namespaceDependencies
  resolvedIoPath : r a.resolvedIoPath b.resolvedIoPath
  canonicalExistingAncestor : r a.canonicalExistingAncestor b.canonicalExistingAncestor
  suffix : r a.suffix b.suffix
  dev : a.dev = b.dev
  ino : a.ino = b.ino

structure PathClaim.Rel (r : P → Q → Prop) (a : PathClaim P) (b : PathClaim Q) : Prop where
  identity : a.identity.Rel r b.identity
  mode : a.mode = b.mode
  scope : a.scope = b.scope

/-- Two descriptors that differ in their paths only, which are related. -/
structure LeaseDescriptor.Rel (r : P → Q → Prop) (a : LeaseDescriptor P) (b : LeaseDescriptor Q) : Prop where
  schema : a.schema = b.schema
  descriptorId : a.descriptorId = b.descriptorId
  family : a.family = b.family
  owner : a.owner = b.owner
  createdUnixMs : a.createdUnixMs = b.createdUnixMs
  claims : List.Forall₂ (PathClaim.Rel r) a.claims b.claims
  coordinationGroup : a.coordinationGroup = b.coordinationGroup

theorem ResolvedPathIdentity.Rel.imp {r r' : P → Q → Prop} (h : ∀ p q, r p q → r' p q) {a : ResolvedPathIdentity P}
    {b : ResolvedPathIdentity Q} (hab : a.Rel r b) : a.Rel r' b where
  original := h _ _ hab.original
  namespacePath := h _ _ hab.namespacePath
  namespaceDependencies := hab.namespaceDependencies.imp h
  resolvedIoPath := h _ _ hab.resolvedIoPath
  canonicalExistingAncestor := h _ _ hab.canonicalExistingAncestor
  suffix := h _ _ hab.suffix
  dev := hab.dev
  ino := hab.ino

theorem PathClaim.Rel.imp {r r' : P → Q → Prop} (h : ∀ p q, r p q → r' p q) {a : PathClaim P} {b : PathClaim Q} (hab : a.Rel r b) :
    a.Rel r' b := ⟨hab.identity.imp h, hab.mode, hab.scope⟩

theorem PathClaim.Rel.eq {a b : PathClaim P} (hab : a.Rel Eq b) : a = b := by
  obtain ⟨⟨_, _, _, _, _, _, _, _⟩, _, _⟩ := a
  obtain ⟨⟨_, _, _, _, _, _, _, _⟩, _, _⟩ := b
  obtain ⟨⟨rfl, rfl, hdeps, rfl, rfl, rfl, rfl, rfl⟩, rfl, rfl⟩ := hab
  obtain rfl := List.forall₂_eq_eq_eq ▸ hdeps
  rfl

theorem LeaseDescriptor.Rel.imp {r r' : P → Q → Prop} (h : ∀ p q, r p q → r' p q) {a : LeaseDescriptor P} {b : LeaseDescriptor Q}
    (hab : a.Rel r b) : a.Rel r' b :=
  ⟨hab.schema, hab.descriptorId, hab.family, hab.owner, hab.createdUnixMs, hab.claims.imp fun _ _ => PathClaim.Rel.imp h,
    hab.coordinationGroup⟩

theorem LeaseDescriptor.Rel.eq {a b : LeaseDescriptor P} (hab : a.Rel Eq b) : a = b := by
  have hclaims : a.claims = b.claims := by
    have h := hab.claims.imp fun _ _ => PathClaim.Rel.eq
    rwa [List.forall₂_eq_eq_eq] at h
  obtain ⟨_, _, _, _, _, _, _⟩ := a
  obtain ⟨_, _, _, _, _, _, _⟩ := b
  obtain ⟨rfl, rfl, rfl, rfl, rfl, -, rfl⟩ := hab
  obtain rfl := hclaims
  rfl

/-- Through a table: an answer for each entry is an answer for the list. -/
theorem forall₂_through {r : P → Q → Prop} {s : Q → R → Prop} {t : R → P → Prop} (h : ∀ p q, r p q → ∃ c, s q c ∧ t c p)
    {xs : List P} {ys : List Q} (hxs : List.Forall₂ r xs ys) : ∃ zs, List.Forall₂ s ys zs ∧ List.Forall₂ t zs xs := by
  induction hxs with
  | nil => exact ⟨[], .nil, .nil⟩
  | cons hxy _ ih =>
    obtain ⟨z, hyz, hzx⟩ := h _ _ hxy
    obtain ⟨zs, hyzs, hzxs⟩ := ih
    exact ⟨z :: zs, .cons hyz hyzs, .cons hzx hzxs⟩

theorem PathClaim.Rel.through {r : P → Q → Prop} {s : Q → R → Prop} {t : R → P → Prop} (h : ∀ p q, r p q → ∃ c, s q c ∧ t c p)
    {a : PathClaim P} {b : PathClaim Q} (hab : a.Rel r b) : ∃ c : PathClaim R, b.Rel s c ∧ c.Rel t a := by
  obtain ⟨original, h₁, h₁'⟩ := h _ _ hab.identity.original
  obtain ⟨namespacePath, h₂, h₂'⟩ := h _ _ hab.identity.namespacePath
  obtain ⟨namespaceDependencies, h₃, h₃'⟩ := forall₂_through h hab.identity.namespaceDependencies
  obtain ⟨resolvedIoPath, h₄, h₄'⟩ := h _ _ hab.identity.resolvedIoPath
  obtain ⟨canonicalExistingAncestor, h₅, h₅'⟩ := h _ _ hab.identity.canonicalExistingAncestor
  obtain ⟨suffix, h₆, h₆'⟩ := h _ _ hab.identity.suffix
  exact ⟨⟨⟨original, namespacePath, namespaceDependencies, resolvedIoPath, canonicalExistingAncestor, suffix, a.identity.dev, a.identity.ino⟩,
      a.mode, a.scope⟩,
    ⟨⟨h₁, h₂, h₃, h₄, h₅, h₆, hab.identity.dev.symm, hab.identity.ino.symm⟩, hab.mode.symm, hab.scope.symm⟩,
    ⟨⟨h₁', h₂', h₃', h₄', h₅', h₆', rfl, rfl⟩, rfl, rfl⟩⟩

end

/-! ## Reading through the table -/

theorem mapM_eq_ok {α β : Type} {f : α → Except String β} : ∀ {xs : List α} {ys : List β},
    xs.mapM f = .ok ys ↔ List.Forall₂ (fun x y => f x = .ok y) xs ys
  | [], ys => by
    rw [List.mapM_nil, List.forall₂_nil_left_iff]
    exact ⟨fun h => (Except.ok.inj h).symm, fun h => h ▸ rfl⟩
  | x :: xs, ys => by
    rw [List.mapM_cons, bind_eq_ok, List.forall₂_cons_left_iff]
    refine exists_congr fun y => ?_
    rw [bind_eq_ok]
    constructor
    · rintro ⟨hx, ys', hys, ⟨⟩⟩
      exact ⟨ys', hx, mapM_eq_ok.1 hys, rfl⟩
    · rintro ⟨ys', hx, hys, rfl⟩
      exact ⟨hx, ys', mapM_eq_ok.2 hys, rfl⟩

theorem PathClaim.mapPaths_eq_ok {P Q : Type} {f : P → Except String Q} {a : PathClaim P} {b : PathClaim Q} :
    a.mapPaths f = .ok b ↔ a.Rel (fun p q => f p = .ok q) b := by
  simp only [PathClaim.mapPaths, ResolvedPathIdentity.mapPaths, bind_eq_ok, mapM_eq_ok]
  constructor
  · rintro ⟨_, ⟨_, h₁, _, h₂, _, h₃, _, h₄, _, h₅, _, h₆, ⟨⟩⟩, ⟨⟩⟩
    exact ⟨⟨h₁, h₂, h₃, h₄, h₅, h₆, rfl, rfl⟩, rfl, rfl⟩
  · rintro ⟨⟨h₁, h₂, h₃, h₄, h₅, h₆, hdev, hino⟩, hmode, hscope⟩
    refine ⟨_, ⟨_, h₁, _, h₂, _, h₃, _, h₄, _, h₅, _, h₆, rfl⟩, ?_⟩
    rw [hdev, hino, hmode, hscope]
    rfl

theorem compactPath_eq_ok {paths : List OsPath} {index : UInt32} {path : OsPath} :
    compactPath paths index = .ok path ↔ paths[index.toNat]? = some path := by
  unfold compactPath
  split
  · rename_i p h
    rw [h]
    exact ⟨fun h => congrArg some (Except.ok.inj h), fun h => congrArg Except.ok (Option.some.inj h)⟩
  · rename_i h
    rw [h]
    exact ⟨nofun, nofun⟩

/-- A body is read when every index is in the table, and each path is the one at its index. -/
theorem expandWire_eq_ok {schema : UInt32} {wire : LeaseDescriptorWire OsPath} {d : LeaseDescriptor OsPath} :
    expandWire schema wire = .ok d ↔
      (⟨schema, wire.descriptorId, wire.family, wire.owner, wire.createdUnixMs, wire.claims, wire.coordinationGroup⟩ : LeaseDescriptor UInt32).Rel
        (fun index path => wire.paths[index.toNat]? = some path) d := by
  have hclaims : ∀ claims, wire.claims.mapM (expandClaim wire.paths) = .ok claims ↔
      List.Forall₂ (PathClaim.Rel fun index path => wire.paths[index.toNat]? = some path) wire.claims claims := by
    intro claims
    rw [mapM_eq_ok]
    simp only [expandClaim, PathClaim.mapPaths_eq_ok, compactPath_eq_ok]
  rw [expandWire, bind_eq_ok]
  simp only [hclaims]
  constructor
  · rintro ⟨claims, h, ⟨⟩⟩
    exact ⟨rfl, rfl, rfl, rfl, rfl, h, rfl⟩
  · rintro ⟨h₁, h₂, h₃, h₄, h₅, h, h₆⟩
    obtain ⟨_, _, _, _, _, _, _⟩ := d
    obtain rfl := h₁
    obtain rfl := h₆
    obtain ⟨rfl, rfl, rfl, rfl⟩ : _ ∧ _ ∧ _ ∧ _ := ⟨h₂, h₃, h₄, h₅⟩
    exact ⟨_, h, rfl⟩

/-! ## Filling the table -/

/-- How many entries a table of these paths has. -/
def distinctPaths (paths : List OsPath) : ℕ := (paths.map components).toFinset.card

/-- A table of some of the paths: every entry under its position, no path twice. -/
structure Table (all : List OsPath) (interner : DescriptorPathInterner) : Prop where
  indexed : interner.indexes = interner.paths.zipIdx.map fun (path, i) => (path, UInt32.ofNat i)
  subset : interner.paths ⊆ all
  distinct : (interner.paths.map components).Nodup

/-- At the index stands the path, in one of the spellings that went in. -/
def Reads (all paths : List OsPath) (path : OsPath) (index : UInt32) : Prop :=
  path ∈ all ∧ ∃ q ∈ all, paths[index.toNat]? = some q ∧ SamePath q path

theorem Reads.mono {all t t' : List OsPath} {path : OsPath} {index : UInt32} (ht : t <+: t') (h : Reads all t path index) :
    Reads all t' path index := by
  obtain ⟨hpath, q, hq, hget, hsame⟩ := h
  obtain ⟨rest, rfl⟩ := ht
  have hlt : index.toNat < t.length := (List.getElem?_eq_some_iff.1 hget).1
  exact ⟨hpath, q, hq, by rw [List.getElem?_append_left hlt, hget], hsame⟩

theorem table_empty (all : List OsPath) : Table all ⟨[], []⟩ := ⟨rfl, List.nil_subset _, List.nodup_nil⟩

section
variable {all : List OsPath} {self : DescriptorPathInterner}

theorem Table.length_le (h : Table all self) : self.paths.length ≤ distinctPaths all := by
  rw [← List.length_map (f := components), ← List.toFinset_card_of_nodup h.distinct, distinctPaths]
  refine Finset.card_le_card fun c hc => ?_
  rw [List.mem_toFinset] at hc ⊢
  exact List.map_subset components h.subset hc

theorem Table.get_some (h : Table all self) (hall : distinctPaths all ≤ 2 ^ 32) {path : OsPath} {index : UInt32}
    (hpath : path ∈ all) (hget : self.get path = some index) : Reads all self.paths path index := by
  rw [DescriptorPathInterner.get, Option.map_eq_some_iff] at hget
  obtain ⟨⟨q, i⟩, hfind, rfl⟩ := hget
  have hsame : SamePath q path := by simpa using List.find?_some hfind
  have hmem := List.mem_of_find?_eq_some hfind
  rw [h.indexed, List.mem_map] at hmem
  obtain ⟨⟨q', n⟩, hn, heq⟩ := hmem
  obtain ⟨rfl, rfl⟩ := Prod.mk.inj heq
  have hpos : self.paths[n]? = some q' := List.mk_mem_zipIdx_iff_getElem?.1 hn
  have hlt : n < self.paths.length := (List.getElem?_eq_some_iff.1 hpos).1
  have hn : (UInt32.ofNat n).toNat = n := UInt32.toNat_ofNat_of_lt' (hlt.trans_le (h.length_le.trans hall))
  exact ⟨hpath, q', h.subset (List.mem_of_getElem? hpos), by rw [hn, hpos], hsame⟩

theorem Table.get_none (h : Table all self) {path : OsPath} (hget : self.get path = none) :
    components path ∉ self.paths.map components := by
  rw [DescriptorPathInterner.get, Option.map_eq_none_iff, List.find?_eq_none, h.indexed] at hget
  rw [List.mem_map]
  rintro ⟨q, hq, heq⟩
  obtain ⟨n, hn⟩ := List.mem_iff_getElem?.1 hq
  exact hget (q, UInt32.ofNat n) (List.mem_map.2 ⟨(q, n), List.mk_mem_zipIdx_iff_getElem?.2 hn, rfl⟩) (decide_eq_true heq)

theorem Table.push (h : Table all self) {path : OsPath} (hpath : path ∈ all) (hnew : components path ∉ self.paths.map components) :
    Table all ⟨self.paths ++ [path], self.indexes ++ [(path, UInt32.ofNat self.paths.length)]⟩ where
  indexed := by simp [h.indexed, List.zipIdx_append]
  subset := List.append_subset.2 ⟨h.subset, by simpa using hpath⟩
  distinct := by
    rw [List.map_append, List.nodup_append]
    refine ⟨h.distinct, by simp, ?_⟩
    intro a ha b hb heq
    obtain rfl : b = components path := by simpa using hb
    exact hnew (heq ▸ ha)

end

/-- A pass over the table that succeeds, only adds to it, and whose result then reads as it should. -/
def Interns {β : Type} (all : List OsPath) (x : StateT DescriptorPathInterner (Except String) β) (post : List OsPath → β → Prop) : Prop :=
  ∀ self, Table all self → ∃ b self', x self = .ok (b, self') ∧ Table all self' ∧ self.paths <+: self'.paths ∧ post self'.paths b

section
variable {α β γ : Type} {all : List OsPath}

theorem Interns.pure {post : List OsPath → β → Prop} {b : β} (h : ∀ t, post t b) : Interns all (pure b) post :=
  fun self hself => ⟨b, self, rfl, hself, List.prefix_rfl, h _⟩

/-- What a first pass left still reads after the second. -/
theorem Interns.bind {x : StateT DescriptorPathInterner (Except String) α} {f : α → StateT DescriptorPathInterner (Except String) β}
    {p : List OsPath → α → Prop} {q : List OsPath → β → Prop} (hx : Interns all x p) (hp : ∀ {t t' a}, t <+: t' → p t a → p t' a)
    (hf : ∀ a, Interns all (f a) fun t b => p t a → q t b) : Interns all (x >>= f) q := by
  intro self hself
  obtain ⟨a, mid, hxa, hmid, hpre, hpa⟩ := hx self hself
  obtain ⟨b, self', hfb, hself', hpre', hqb⟩ := hf a mid hmid
  refine ⟨b, self', ?_, hself', hpre.trans hpre', hqb (hp hpre' hpa)⟩
  rw [← hfb]
  exact congrArg (· >>= fun r => f r.1 r.2) hxa

theorem Interns.imp {x : StateT DescriptorPathInterner (Except String) α} {p q : List OsPath → α → Prop} (hx : Interns all x p)
    (h : ∀ t a, p t a → q t a) : Interns all x q := by
  intro self hself
  obtain ⟨a, self', hxa, hself', hpre, hpa⟩ := hx self hself
  exact ⟨a, self', hxa, hself', hpre, h _ _ hpa⟩

theorem Interns.mapM {f : α → StateT DescriptorPathInterner (Except String) β} {p : List OsPath → α → β → Prop} :
    ∀ {xs : List α}, (∀ x ∈ xs, Interns all (f x) fun t y => p t x y) → (∀ {t t' x y}, t <+: t' → p t x y → p t' x y) →
      Interns all (xs.mapM f) fun t ys => List.Forall₂ (p t) xs ys
  | [], _, _ => .pure fun _ => .nil
  | x :: xs, hxs, hp => by
    rw [List.mapM_cons]
    refine (hxs x List.mem_cons_self).bind hp fun y => ?_
    refine (Interns.mapM (fun z hz => hxs z (List.mem_cons_of_mem x hz)) hp).bind
      (fun ht h => h.imp fun _ _ => hp ht) fun ys => .pure fun t hys hy => .cons hy hys

/-- **One path**: it is found, or added at the end. -/
theorem intern_spec (hall : distinctPaths all ≤ 2 ^ 32) {path : OsPath} (hpath : path ∈ all) :
    Interns all (intern path) fun t index => Reads all t path index := by
  intro self hself
  rw [intern]
  split
  · rename_i index hget
    exact ⟨index, self, rfl, hself, List.prefix_rfl, hself.get_some hall hpath hget⟩
  · rename_i hget
    have hpush := hself.push hpath (hself.get_none hget)
    have hlt : self.paths.length < 2 ^ 32 := by
      have := hpush.length_le
      rw [List.length_append, List.length_singleton] at this
      omega
    rw [if_pos hlt]
    refine ⟨_, _, rfl, hpush, List.prefix_append _ _, hpath, path, hpath, ?_, rfl⟩
    rw [UInt32.toNat_ofNat_of_lt' hlt, List.getElem?_concat_length]

theorem compactClaim_spec (hall : distinctPaths all ≤ 2 ^ 32) {claim : PathClaim OsPath} (hclaim : claim.identity.paths ⊆ all) :
    Interns all (compactClaim claim) fun t compact => claim.Rel (Reads all t) compact := by
  have hpath : ∀ path ∈ claim.identity.paths, Interns all (intern path) fun t index => Reads all t path index :=
    fun path h => intern_spec hall (hclaim h)
  simp only [compactClaim, PathClaim.mapPaths, ResolvedPathIdentity.mapPaths, bind_assoc, pure_bind]
  refine (hpath _ (by simp [ResolvedPathIdentity.paths])).bind Reads.mono fun original => ?_
  refine (hpath _ (by simp [ResolvedPathIdentity.paths])).bind Reads.mono fun namespacePath => ?_
  refine (Interns.mapM (fun x hx => hpath x (by simp [ResolvedPathIdentity.paths, hx])) Reads.mono).bind
    (fun ht h => h.imp fun _ _ => Reads.mono ht) fun namespaceDependencies => ?_
  refine (hpath _ (by simp [ResolvedPathIdentity.paths])).bind Reads.mono fun resolvedIoPath => ?_
  refine (hpath _ (by simp [ResolvedPathIdentity.paths])).bind Reads.mono fun canonicalExistingAncestor => ?_
  refine (hpath _ (by simp [ResolvedPathIdentity.paths])).bind Reads.mono fun suffix => ?_
  exact .pure fun t h₆ h₅ h₄ h₃ h₂ h₁ => ⟨⟨h₁, h₂, h₃, h₄, h₅, h₆, rfl, rfl⟩, rfl, rfl⟩

end

/-- The table of a body holds spellings of the paths that went in, and every claim reads its own. -/
theorem compactDescriptor_spec (schema : UInt32) (d : LeaseDescriptor OsPath) (hpaths : distinctPaths d.paths ≤ 2 ^ 32) :
    ∃ wire, compactDescriptor schema d = .ok wire ∧
      ({ d with schema := schema } : LeaseDescriptor OsPath).Rel (Reads d.paths wire.paths)
        ⟨wire.schema, wire.descriptorId, wire.family, wire.owner, wire.createdUnixMs, wire.claims, wire.coordinationGroup⟩ := by
  have hclaims : Interns d.paths (d.claims.mapM compactClaim) fun t claims => List.Forall₂ (PathClaim.Rel (Reads d.paths t)) d.claims claims := by
    refine Interns.mapM (fun claim hclaim => compactClaim_spec hpaths fun path hpath => ?_) fun ht h => h.imp fun _ _ => Reads.mono ht
    exact List.mem_flatMap.2 ⟨claim, hclaim, hpath⟩
  obtain ⟨claims, interner, hrun, -, -, hrel⟩ := hclaims ⟨[], []⟩ (table_empty _)
  refine ⟨⟨schema, d.descriptorId, d.family, d.owner, d.createdUnixMs, interner.paths, claims, d.coordinationGroup⟩, ?_,
    ⟨rfl, rfl, rfl, rfl, rfl, hrel, rfl⟩⟩
  rw [compactDescriptor, StateT.run, hrun]
  rfl

/-! ## Storing a descriptor and reading it back -/

theorem deserialized_serialized (wire : LeaseDescriptorWire OsPath) : wire.serialized.deserialized = wire := by
  have hpaths : (wire.paths.map encodePath).map decodePath = wire.paths := by
    rw [List.map_map]
    exact (List.map_congr_left fun path _ => decodePath_encodePath path).trans (List.map_id _)
  rw [LeaseDescriptorWire.serialized, LeaseDescriptorWire.deserialized]
  simp only [hpaths]

/-- `bytes` hold a body with a table of paths, in the layout of its schema. -/
def SerdeJson.Holds (json : SerdeJson) (bytes : List UInt8) (schema : UInt32) (wire : LeaseDescriptorWire EncodedPath) : Prop :=
  json.schemaOf bytes = .ok schema ∧ (schema = descriptorSchemaInternedObjects ∧ json.fromSliceV2 bytes = .ok wire ∨
    schema = descriptorSchema ∧ json.fromSliceV3 bytes = .ok wire)

theorem decode_of_holds {json : SerdeJson} {bytes : List UInt8} {schema : UInt32} {wire : LeaseDescriptorWire EncodedPath}
    (h : json.Holds bytes schema wire) : decodeDescriptorFromStorage json bytes = expandWire schema wire.deserialized := by
  obtain ⟨hschema, ⟨rfl, hwire⟩ | ⟨rfl, hwire⟩⟩ := h
  all_goals
    rw [decodeDescriptorFromStorage, hschema, hwire]
    rfl

/-- What comes out of the table is what went in, up to the spelling of a path. -/
theorem expandWire_compactDescriptor (schema : UInt32) (d : LeaseDescriptor OsPath) (hpaths : distinctPaths d.paths ≤ 2 ^ 32) :
    ∃ wire d', compactDescriptor schema d = .ok wire ∧ wire.schema = schema ∧ expandWire schema wire = .ok d' ∧
      d'.Rel (fun q p => SamePath q p ∧ q ∈ d.paths ∧ p ∈ d.paths) { d with schema := schema } := by
  obtain ⟨wire, hwire, hrel⟩ := compactDescriptor_spec schema d hpaths
  have hthrough : ∀ path index, Reads d.paths wire.paths path index →
      ∃ q, wire.paths[index.toNat]? = some q ∧ SamePath q path ∧ q ∈ d.paths ∧ path ∈ d.paths :=
    fun _ _ ⟨hpath, q, hq, hget, hsame⟩ => ⟨q, hget, hsame, hq, hpath⟩
  obtain ⟨claims, hread, hclaims⟩ := forall₂_through (fun _ _ h => PathClaim.Rel.through hthrough h) hrel.claims
  refine ⟨wire, ⟨schema, wire.descriptorId, wire.family, wire.owner, wire.createdUnixMs, claims, wire.coordinationGroup⟩, hwire,
    hrel.schema.symm, expandWire_eq_ok.2 ⟨rfl, rfl, rfl, rfl, rfl, hread, rfl⟩, ?_⟩
  exact ⟨rfl, hrel.descriptorId.symm, hrel.family.symm, hrel.owner.symm, hrel.createdUnixMs.symm, hclaims, hrel.coordinationGroup.symm⟩

theorem exists_of_mem_forall₂ {P Q : Type} {r : P → Q → Prop} {xs : List P} {ys : List Q} (h : List.Forall₂ r xs ys) {x : P} (hx : x ∈ xs) :
    ∃ y, r x y := by
  induction h with
  | nil => cases hx
  | cons hxy _ ih =>
    rcases List.mem_cons.1 hx with rfl | hx
    · exact ⟨_, hxy⟩
    · exact ih hx

theorem ResolvedPathIdentity.Rel.exists_of_mem {P Q : Type} {r : P → Q → Prop} {a : ResolvedPathIdentity P} {b : ResolvedPathIdentity Q}
    (hab : a.Rel r b) {p : P} (hp : p ∈ a.paths) : ∃ q, r p q := by
  simp only [ResolvedPathIdentity.paths, List.mem_cons, List.mem_append, List.not_mem_nil, or_false] at hp
  rcases hp with rfl | rfl | hp | rfl | rfl | rfl
  · exact ⟨_, hab.original⟩
  · exact ⟨_, hab.namespacePath⟩
  · exact exists_of_mem_forall₂ hab.namespaceDependencies hp
  · exact ⟨_, hab.resolvedIoPath⟩
  · exact ⟨_, hab.canonicalExistingAncestor⟩
  · exact ⟨_, hab.suffix⟩

/-- An index past the table is an error. -/
theorem expandWire_error {schema : UInt32} {wire : LeaseDescriptorWire OsPath}
    (h : ∃ claim ∈ wire.claims, ∃ index ∈ claim.identity.paths, wire.paths.length ≤ index.toNat) :
    ∃ error, expandWire schema wire = .error error := by
  obtain ⟨claim, hclaim, index, hindex, hlength⟩ := h
  cases hresult : expandWire schema wire with
  | error error => exact ⟨error, rfl⟩
  | ok d =>
    obtain ⟨expanded, hrel⟩ := exists_of_mem_forall₂ (expandWire_eq_ok.1 hresult).claims hclaim
    obtain ⟨path, hget⟩ := hrel.identity.exists_of_mem hindex
    rw [List.getElem?_eq_none hlength] at hget
    cases hget

/-- **A descriptor survives storage.** What is stored is read back with every claim as it was, each path in a spelling that
`PathBuf` does not tell from its own; a body in either layout reads as what its indices say, and not at all when one of them is
past its table. -/
theorem descriptor_survives_storage (json : SerdeJson) (d : LeaseDescriptor OsPath) (hpaths : distinctPaths d.paths ≤ 2 ^ 32)
    (hjson : ∀ schema wire, compactDescriptor schema d = .ok wire → json.RoundTrips wire.serialized) :
    (d.schema = descriptorSchema → ∃ bytes d', encodeDescriptorForStorage json d = .ok bytes ∧
      decodeDescriptorFromStorage json bytes = .ok d' ∧ d'.Rel SamePath d ∧
        ((∀ p ∈ d.paths, ∀ q ∈ d.paths, SamePath p q → p = q) → d' = d)) ∧
    (∃ bytes d', encodeDescriptorSchemaTwo json d = .ok bytes ∧ decodeDescriptorFromStorage json bytes = .ok d' ∧
      d'.Rel SamePath { d with schema := descriptorSchemaInternedObjects }) ∧
    ∀ bytes schema wire, json.Holds bytes schema wire →
      (∀ d', decodeDescriptorFromStorage json bytes = .ok d' ↔
        (⟨schema, wire.descriptorId, wire.family, wire.owner, wire.createdUnixMs, wire.claims, wire.coordinationGroup⟩ :
          LeaseDescriptor UInt32).Rel (fun index path => (wire.paths.map decodePath)[index.toNat]? = some path) d') ∧
      ((∃ claim ∈ wire.claims, ∃ index ∈ claim.identity.paths, wire.paths.length ≤ index.toNat) →
        ∃ error, decodeDescriptorFromStorage json bytes = .error error) := by
  refine ⟨fun hschema => ?_, ?_, fun bytes schema wire hholds => ⟨fun d' => ?_, fun houtside => ?_⟩⟩
  · obtain ⟨wire, d', hwire, hwireSchema, hexpand, hrel⟩ := expandWire_compactDescriptor descriptorSchema d hpaths
    obtain ⟨bytes, hwrite, hprobe, hread⟩ := (hjson _ _ hwire).schemaThree hwireSchema
    have hholds : json.Holds bytes descriptorSchema wire.serialized := ⟨hprobe.trans (congrArg Except.ok hwireSchema), .inr ⟨rfl, hread⟩⟩
    have hd : ({ d with schema := descriptorSchema } : LeaseDescriptor OsPath) = d := by rw [← hschema]
    rw [hd] at hrel
    refine ⟨bytes, d', ?_, ?_, hrel.imp fun _ _ h => h.1, fun halike => (hrel.imp fun q p h => ?_).eq⟩
    · rw [encodeDescriptorForStorage, if_neg (not_not.2 hschema), hwire]
      change (json.toVecV3 wire.serialized).mapError _ = _
      rw [hwrite]
      rfl
    · rw [decode_of_holds hholds, deserialized_serialized, hexpand]
    · exact halike q h.2.1 p h.2.2 h.1
  · obtain ⟨wire, d', hwire, hwireSchema, hexpand, hrel⟩ := expandWire_compactDescriptor descriptorSchemaInternedObjects d hpaths
    obtain ⟨bytes, hwrite, hprobe, hread⟩ := (hjson _ _ hwire).schemaTwo hwireSchema
    have hholds : json.Holds bytes descriptorSchemaInternedObjects wire.serialized :=
      ⟨hprobe.trans (congrArg Except.ok hwireSchema), .inl ⟨rfl, hread⟩⟩
    refine ⟨bytes, d', ?_, ?_, hrel.imp fun _ _ h => h.1⟩
    · rw [encodeDescriptorSchemaTwo, hwire]
      change (json.toVecV2 wire.serialized).mapError _ = _
      rw [hwrite]
      rfl
    · rw [decode_of_holds hholds, deserialized_serialized, hexpand]
  · rw [decode_of_holds hholds, expandWire_eq_ok]
    rfl
  · rw [decode_of_holds hholds]
    refine expandWire_error ?_
    simpa [LeaseDescriptorWire.deserialized] using houtside

section
/-- ASCII text. -/
def ascii (text : String) : List UInt8 := text.toList.map fun c => c.toNat.toUInt8

/-- A claim on a file spelled twice, below a directory whose name is not UTF-8. -/
def sampleClaim : PathClaim OsPath where
  identity := ⟨ascii "/m/a", ascii "/m//a", [[47, 255]], ascii "/m/a", [47, 255], [], some 5, none⟩
  mode := .write
  scope := .exact

def sampleDescriptor (schema : UInt32) : LeaseDescriptor OsPath :=
  ⟨schema, 1, .queueScope 2, ⟨3, 4, 5, 6⟩, 7, [sampleClaim], none⟩

def sampleWire (schema : UInt32) : LeaseDescriptorWire OsPath :=
  ⟨schema, 1, .queueScope 2, ⟨3, 4, 5, 6⟩, 7, [ascii "/m/a", [47, 255], []], [⟨⟨0, 0, [1], 0, 1, 2, some 5, none⟩, .write, .exact⟩], none⟩

/-- The text of the sample up to its claims. -/
def sampleHead : String :=
  ",\"descriptor_id\":\"00000000-0000-0000-0000-000000000001\",\"family\":\x7b\"kind\":\"queue_scope\",\"scope_id\":" ++
  "\"00000000-0000-0000-0000-000000000002\"\x7d,\"owner\":\x7b\"pid\":3,\"start_ticks\":4,\"boot_id_hash\":5,\"process_token\":6\x7d," ++
  "\"created_unix_ms\":7,\"paths\":[\"/m/a\",\x7b\"unix_bytes\":[47,255]\x7d,\"\"],\"claims\":["

def sampleTextV2 : List UInt8 :=
  ascii "\x7b\"schema\":2" ++ ascii (sampleHead ++ "\x7b\"identity\":\x7b\"original\":0,\"namespace_path\":0,\"namespace_dependencies\":[1]," ++
    "\"resolved_io_path\":0,\"canonical_existing_ancestor\":1,\"suffix\":2,\"dev\":5,\"ino\":null\x7d,\"mode\":\"write\"," ++
    "\"scope\":\"exact\"\x7d]\x7d")

def sampleTextV3 : List UInt8 :=
  ascii "\x7b\"schema\":3" ++ ascii (sampleHead ++ "[0,0,[1],0,1,2,5,null,\"write\",\"exact\"]]\x7d")

/-- `serde_json` on the sample. -/
def sampleJson : SerdeJson where
  toVecV2 _ := .ok sampleTextV2
  toVecV3 _ := .ok sampleTextV3
  schemaOf bytes := if bytes = sampleTextV2 then .ok 2 else if bytes = sampleTextV3 then .ok 3 else .error "expected value"
  fromSliceV1 _ := .error "missing field"
  fromSliceV2 bytes := if bytes = sampleTextV2 then .ok (sampleWire 2).serialized else .error "expected value"
  fromSliceV3 bytes := if bytes = sampleTextV3 then .ok (sampleWire 3).serialized else .error "expected value"

theorem sampleJson_roundTrips (schema : UInt32) (wire : LeaseDescriptorWire OsPath)
    (hwire : compactDescriptor schema (sampleDescriptor 3) = .ok wire) : sampleJson.RoundTrips wire.serialized := by
  have hstored : compactDescriptor schema (sampleDescriptor 3) = .ok (sampleWire schema) := rfl
  obtain rfl : sampleWire schema = wire := Except.ok.inj (hstored.symm.trans hwire)
  have hne : sampleTextV3 ≠ sampleTextV2 := fun h => absurd (congrArg (fun bytes => bytes[10]?) h) (by decide)
  refine ⟨fun hschema => ⟨sampleTextV2, rfl, ?_, ?_⟩, fun hschema => ⟨sampleTextV3, rfl, ?_, ?_⟩⟩
  all_goals obtain rfl : schema = _ := hschema
  all_goals simp only [sampleJson, hne, if_true, if_false]
  all_goals rfl

/-- Two spellings of a path come back as the first of them, which `PathBuf` compares as the same path. -/
theorem sampleDescriptor_survives : ∃ bytes d', encodeDescriptorForStorage sampleJson (sampleDescriptor 3) = .ok bytes ∧
    decodeDescriptorFromStorage sampleJson bytes = .ok d' ∧ d'.Rel SamePath (sampleDescriptor 3) := by
  obtain ⟨bytes, d', hencode, hdecode, hrel, -⟩ :=
    (descriptor_survives_storage sampleJson (sampleDescriptor 3) (by decide) sampleJson_roundTrips).1 rfl
  exact ⟨bytes, d', hencode, hdecode, hrel⟩

/-- A descriptor read from an old body is not written again under its schema. -/
theorem legacyDescriptor_refused : encodeDescriptorForStorage sampleJson (sampleDescriptor descriptorSchemaLegacy) =
    .error "cannot encode persistent lease schema 1 with schema-3 encoder" := by
  generalize sampleJson = json
  rfl

end

end Concurrency.Storage
