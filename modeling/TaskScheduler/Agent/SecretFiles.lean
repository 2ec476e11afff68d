import TaskScheduler.Blueprint.Bindings

namespace Scheduler

open Blueprints

-- An absolute path without links, by its components.
abbrev Path := List String

inductive IoErrorKind
  | notFound
  | other
  deriving DecidableEq, Repr

inductive FileType
  | file
  | directory
  | other
  deriving DecidableEq, Repr

structure Metadata where
  fileType : FileType
  len      : Nat
  deriving DecidableEq, Repr

namespace Metadata

def isFile (m : Metadata) : Bool :=
  m.fileType = .file

def isDir (m : Metadata) : Bool :=
  m.fileType = .directory

end Metadata

-- What the calls to the operating system answer while nothing changes. Entries whose names are no
-- Unicode are `none`.
structure FileSystem where
  readDir      : Path → Option (List (Option String))
  canonicalize : Path → Except IoErrorKind Path
  metadata     : Path → Option Metadata
  read         : Path → Option (List UInt8)
  varOs        : String → Option (List UInt8)

structure AvailableBindings where
  environment : List String
  secretFiles : List String
  deriving DecidableEq, Repr

structure ParameterBindingResolver where
  allowedEnvironment : List String
  secretRoots        : List Path
  maxBytes           : Nat

-- `is_safe_logical_name` of the agent.
def isSafeFileName (name : String) : Bool :=
  isSafeLogicalName name 128 && name ≠ "." && name ≠ ".."

namespace ParameterBindingResolver

def maxConfiguredBindingBytes : Nat :=
  1024 * 1024

def newRoot (fs : FileSystem) (root : Path) : Except String Path :=
  match fs.canonicalize root with
  | .error _      => .error "a configured secret binding root is unavailable"
  | .ok canonical =>
    if !(fs.metadata canonical).any Metadata.isDir then
      .error "secret binding roots must be directories"
    else
      .ok canonical

-- The configured roots are absolute.
def new (fs : FileSystem) (allowedEnvironment : List String) (secretRoots : List Path)
    (maxBytes : Nat) : Except String ParameterBindingResolver :=
  if maxBytes = 0 ∨ maxConfiguredBindingBytes < maxBytes then
    .error "binding_max_bytes must be between 1 and 1048576"
  else if allowedEnvironment.any fun name => !isPortable name then
    .error "allowed environment bindings must use portable environment-variable syntax"
  else do
    let roots ← secretRoots.mapM (newRoot fs)
    return { allowedEnvironment := allowedEnvironment.dedup, secretRoots := roots, maxBytes }

variable (r : ParameterBindingResolver) (fs : FileSystem)

def ensureSize (bytes : List UInt8) : Except String Unit :=
  if r.maxBytes < bytes.length then
    .error "parameter binding exceeds the configured size limit"
  else
    .ok ()

-- Whether the loop over the entries of a root takes a name.
def isListed (root : Path) (name : String) : Bool :=
  isSafeFileName name &&
    match fs.canonicalize (root ++ [name]) with
    | .error _      => false
    | .ok canonical =>
      root.isPrefixOf canonical &&
        (fs.metadata canonical).any fun m => m.isFile && m.len ≤ r.maxBytes

def listRoot (root : Path) : Except String (List String) :=
  match fs.readDir root with
  | none         => .error "a configured secret binding root is unreadable"
  | some entries => .ok <| (entries.filterMap id).filter (r.isListed fs root)

def availableBindings : Except String AvailableBindings := do
  let environment := r.allowedEnvironment.filter fun name =>
    (fs.varOs name).any fun value => (r.ensureSize value).isOk
  let names ← r.secretRoots.mapM (r.listRoot fs)
  return {
    environment := environment.insertionSort (· ≤ ·)
    secretFiles := names.flatten.dedup.insertionSort (· ≤ ·)
  }

def readFrom (root canonical : Path) : Except String (List UInt8) :=
  if !root.isPrefixOf canonical then
    .error "secret-file parameter binding escapes its configured root"
  else
    match fs.metadata canonical with
    | none   => .error "secret-file parameter binding is unreadable"
    | some m =>
      if !m.isFile then
        .error "secret-file parameter binding is not a regular file"
      else if r.maxBytes < m.len then
        .error "parameter binding exceeds the configured size limit"
      else
        match fs.read canonical with
        | none       => .error "secret-file parameter binding is unreadable"
        | some bytes => do
          r.ensureSize bytes
          return bytes

-- The loop over the roots.
def readRoots (name : String) : (roots : List Path) → Except String (List UInt8)
  | []            => .error "secret-file parameter binding is unavailable"
  | root :: roots =>
    match fs.canonicalize (root ++ [name]) with
    | .ok canonical     => r.readFrom fs root canonical
    | .error .notFound  => readRoots name roots
    | .error .other     => .error "secret-file parameter binding is unreadable"

def readSecretFile (binding : Blueprints.ParameterBinding) : Except String (List UInt8) :=
  if r.secretRoots = [] then
    .error "secret-file parameter bindings are not configured on this agent"
  else
    r.readRoots fs binding.name r.secretRoots

-- The name stands for a regular file below the root that is not too large.
def Holds (root : Path) (name : String) (canonical : Path) : Prop :=
  fs.canonicalize (root ++ [name]) = .ok canonical ∧ root <+: canonical ∧
    ∃ m, fs.metadata canonical = some m ∧ m.isFile ∧ m.len ≤ r.maxBytes

def Offers (root : Path) (name : String) : Prop :=
  (∃ entries, fs.readDir root = some entries ∧ some name ∈ entries) ∧
    ∃ canonical, r.Holds fs root name canonical

def Serves (root : Path) (name : String) : Prop :=
  ∃ canonical bytes, r.Holds fs root name canonical ∧ fs.read canonical = some bytes ∧
    bytes.length ≤ r.maxBytes

def Listable : Prop :=
  ∀ root ∈ r.secretRoots, (fs.readDir root).isSome

-- The first root in which the name is not missing.
def holder (name : String) : Option Path :=
  r.secretRoots.find? fun root => fs.canonicalize (root ++ [name]) ≠ .error .notFound

variable {r} {fs} {root : Path} {name : String}

theorem isSafeFileName_of_valid {binding : Blueprints.ParameterBinding}
    (hs : binding.source = .secretFile) (hv : validateBindingSourceName binding = .ok ()) :
    isSafeFileName binding.name := by
  simp only [validateBindingSourceName, hs, Fallible.ite_error_eq_ok] at hv
  simp only [Bool.or_eq_true, not_or, decide_eq_true_eq, Bool.not_eq_true', Bool.not_eq_false] at hv
  simp [isSafeFileName, hv]

theorem isListed_iff (hn : isSafeFileName name) :
    r.isListed fs root name ↔ ∃ canonical, r.Holds fs root name canonical := by
  simp only [isListed, hn, Bool.true_and, Holds]
  cases hc : fs.canonicalize (root ++ [name])
  case error => simp
  case ok canonical =>
    simp only [Bool.and_eq_true, List.isPrefixOf_iff_prefix, Option.any_eq_true, decide_eq_true_eq,
      Except.ok.injEq, exists_eq_left']

theorem listRoot_eq_ok {names : List String} : r.listRoot fs root = .ok names ↔
    ∃ entries, fs.readDir root = some entries ∧
      names = (entries.filterMap id).filter (r.isListed fs root) := by
  cases hd : fs.readDir root <;> simp [listRoot, hd, eq_comm]

theorem mem_filter_listed {entries : List (Option String)} (hn : isSafeFileName name) :
    name ∈ (entries.filterMap id).filter (r.isListed fs root) ↔
      some name ∈ entries ∧ ∃ canonical, r.Holds fs root name canonical := by
  rw [List.mem_filter, isListed_iff hn]
  simp

-- A name is advertised if all roots can be listed and one of them offers it.
theorem mem_secretFiles_iff (hn : isSafeFileName name) :
    (∃ a, r.availableBindings fs = .ok a ∧ name ∈ a.secretFiles) ↔
      r.Listable fs ∧ ∃ root ∈ r.secretRoots, r.Offers fs root name := by
  simp only [availableBindings, Fallible.bind_eq_ok, pure, Except.pure, Except.ok.injEq,
    Fallible.mapM_eq_ok_iff, listRoot_eq_ok]
  constructor
  case mp =>
    rintro ⟨_, ⟨names, hl, rfl⟩, hm⟩
    rw [List.mem_insertionSort, List.mem_dedup, List.mem_flatten] at hm
    have ⟨listed, hm', hn'⟩ := hm
    constructor
    case left =>
      intro root hr
      have ⟨_, _, entries, he, _⟩ := Fallible.exists_of_forall₂ hl hr
      exact Option.isSome_of_eq_some he
    case right =>
      have ⟨root, hr, entries, he, hd⟩ := Fallible.exists_of_forall₂ hl.flip hm'
      rw [hd, mem_filter_listed hn] at hn'
      exact ⟨root, hr, ⟨entries, he, hn'.left⟩, hn'.right⟩
  case mpr =>
    rintro ⟨ha, root, hr, ⟨entries, he, hm⟩, hh⟩
    have ⟨names, hl⟩ := Fallible.exists_forall₂ (l := r.secretRoots)
      (R := fun root names => ∃ entries, fs.readDir root = some entries ∧
        names = (entries.filterMap id).filter (r.isListed fs root)) fun root hr =>
        have ⟨entries, he⟩ := Option.isSome_iff_exists.mp (ha root hr)
        ⟨_, entries, he, rfl⟩
    have ⟨listed, hm', entries', he', hd⟩ := Fallible.exists_of_forall₂ hl hr
    refine ⟨_, ⟨names, hl, rfl⟩, ?_⟩
    rw [List.mem_insertionSort, List.mem_dedup, List.mem_flatten]
    refine ⟨listed, hm', ?_⟩
    cases he.symm.trans he'
    rw [hd, mem_filter_listed hn]
    exact ⟨hm, hh⟩

theorem readFrom_eq_ok {canonical : Path} {bytes : List UInt8}
    (hc : fs.canonicalize (root ++ [name]) = .ok canonical) :
    r.readFrom fs root canonical = .ok bytes ↔ r.Holds fs root name canonical ∧
      fs.read canonical = some bytes ∧ bytes.length ≤ r.maxBytes := by
  simp only [readFrom, Fallible.ite_error_eq_ok, Holds, hc]
  cases hm : fs.metadata canonical
  case none => simp
  case some m =>
    cases hr : fs.read canonical
    case none =>
      simp only [Fallible.ite_error_eq_ok]
      simp
    case some bytes' =>
      simp only [Fallible.ite_error_eq_ok, Fallible.bind_eq_ok, ensureSize, pure, Except.pure,
        Except.ok.injEq, Option.some.injEq]
      simp
      grind

-- The first root in which the name is not missing decides.
theorem exists_readRoots_iff {roots : List Path} :
    (∃ bytes, r.readRoots fs name roots = .ok bytes) ↔
      ∃ root, (roots.find? fun root => fs.canonicalize (root ++ [name]) ≠ .error .notFound) =
        some root ∧ r.Serves fs root name := by
  induction roots
  case nil => simp [readRoots]
  case cons root roots hi =>
    rw [readRoots, List.find?_cons]
    cases hc : fs.canonicalize (root ++ [name])
    case error e =>
      cases e
      case notFound => simpa using hi
      case other => simp [Serves, Holds, hc]
    case ok canonical =>
      simp only [readFrom_eq_ok hc, Serves]
      simp [Holds, hc]

structure Agrees (r : ParameterBindingResolver) (fs : FileSystem) (name : String) : Prop where
  -- No entry of another kind in an earlier root hides what a root offers.
  unhidden : r.Listable fs → ∀ root ∈ r.secretRoots, r.Offers fs root name →
    ∀ first, r.holder fs name = some first → r.Serves fs first name
  -- A file that can be read also stands in a listing, and no root is unreadable.
  listed : ∀ first, r.holder fs name = some first → r.Serves fs first name →
    r.Listable fs ∧ ∃ root ∈ r.secretRoots, r.Offers fs root name

theorem exists_readSecretFile_iff {binding : Blueprints.ParameterBinding} :
    (∃ bytes, r.readSecretFile fs binding = .ok bytes) ↔
      ∃ root, r.holder fs binding.name = some root ∧ r.Serves fs root binding.name := by
  rw [holder, ← exists_readRoots_iff]
  by_cases hr : r.secretRoots = []
  case pos => simp [readSecretFile, hr, readRoots]
  case neg => simp [readSecretFile, hr]

theorem Offers.holder_isSome (ho : r.Offers fs root name) (hr : root ∈ r.secretRoots) :
    (r.holder fs name).isSome := by
  have ⟨_, canonical, hc, _⟩ := ho
  rw [holder, List.find?_isSome]
  exact ⟨root, hr, by simp [hc]⟩

theorem secret_files_resolvable_iff {binding : Blueprints.ParameterBinding}
    (hs : binding.source = .secretFile) (hv : validateBindingSourceName binding = .ok ()) :
    ((∃ a, r.availableBindings fs = .ok a ∧ binding.name ∈ a.secretFiles) ↔
      ∃ bytes, r.readSecretFile fs binding = .ok bytes) ↔ r.Agrees fs binding.name := by
  rw [mem_secretFiles_iff (isSafeFileName_of_valid hs hv), exists_readSecretFile_iff]
  constructor
  case mp =>
    intro h
    constructor
    case unhidden =>
      intro hl root hr ho first hf
      have ⟨first', hf', hs⟩ := h.mp ⟨hl, root, hr, ho⟩
      cases hf.symm.trans hf'
      exact hs
    case listed =>
      intro first hf hs
      exact h.mpr ⟨first, hf, hs⟩
  case mpr =>
    intro h
    constructor
    case mp =>
      rintro ⟨hl, root, hr, ho⟩
      have ⟨first, hf⟩ := Option.isSome_iff_exists.mp (ho.holder_isSome hr)
      exact ⟨first, hf, h.unhidden hl root hr ho first hf⟩
    case mpr =>
      rintro ⟨first, hf, hs⟩
      exact h.listed first hf hs

end ParameterBindingResolver

namespace Sample

-- Two roots. The first holds nothing or a directory named `token`, the second a file of that name.
def secrets (isHidden : Bool) : FileSystem where
  readDir path :=
    if path = ["b"] ∨ isHidden ∧ path = ["a"] then some [some "token"]
    else if path = ["a"] then some []
    else none
  canonicalize path :=
    if path = ["a", "token"] ∧ !isHidden then .error .notFound else .ok path
  metadata path :=
    if path = ["b", "token"] then some { fileType := .file, len := 1 }
    else some { fileType := .directory, len := 0 }
  read path := if path = ["b", "token"] then some [42] else none
  varOs _ := none

def secretReader : ParameterBindingResolver :=
  { allowedEnvironment := [], secretRoots := [["a"], ["b"]], maxBytes := 16 }

def tokenFile : Blueprints.ParameterBinding :=
  { source := .secretFile, name := "token", valueType := .string, sensitive := true }

end Sample

open Sample

namespace ParameterBindingResolver

theorem secret_files_resolvable_iff_unhidden :
    secretReader.Agrees (secrets false) "token" ∧
      ∃ bytes, secretReader.readSecretFile (secrets false) tokenFile = .ok bytes := by
  have hv : validateBindingSourceName tokenFile = .ok () := by decide +kernel
  have hl : ∃ a, secretReader.availableBindings (secrets false) = .ok a ∧
      tokenFile.name ∈ a.secretFiles := ⟨⟨[], ["token"]⟩, by decide +kernel, by decide⟩
  have hr : ∃ bytes, secretReader.readSecretFile (secrets false) tokenFile = .ok bytes :=
    ⟨[42], by decide +kernel⟩
  exact ⟨(secret_files_resolvable_iff rfl hv).mp (iff_of_true hl hr), hr⟩

-- The coordinator places the run on this agent, which then finds a directory.
theorem directory_hides_secret_file :
    new (secrets true) [] [["a"], ["b"]] 16 = .ok secretReader ∧
    validateBindingSourceName tokenFile = .ok () ∧
    (∃ a, secretReader.availableBindings (secrets true) = .ok a ∧
      "token" ∈ a.secretFiles ∧
      ∀ session : AgentSession, session.secretFileBindings = a.secretFiles →
        session.supports { labels := [], bindings := [tokenFile.toParameterBinding] }) ∧
    secretReader.readSecretFile (secrets true) tokenFile =
      .error "secret-file parameter binding is not a regular file" := by
  refine ⟨rfl, by decide +kernel, ⟨⟨[], ["token"]⟩, by decide +kernel, by decide, ?_⟩,
    by decide +kernel⟩
  intro session hs
  simp [AgentSession.supports, hs, tokenFile]

end ParameterBindingResolver

end Scheduler
