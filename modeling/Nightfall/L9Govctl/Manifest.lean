import Nightfall.Core.Dfs
import Nightfall.Core.Lists
import Nightfall.Core.Prog
import Nightfall.L1Storage.Names

/-!
# The target manifest of `govctl` (`dev/lib/govctl_manifest.py`)

`validateAndNormalizeManifest` checks a parsed YAML manifest, expands groups to
targets and `requires` to targets, and refuses a cycle. Its recursions stop by
their own cycle checks; the model counts the steps down from the number of
groups or targets, which `expandGroupTargets_ne_limit` and
`detectRequiresCycle_ne_limit` show to be enough.
-/
namespace Nightfall.Govctl
open Nightfall.Core Storage

/-- What `yaml.safe_load` returns. A mapping is a `dict`: its keys are distinct
and in file order. `other` is any scalar that is no string, integer or boolean. -/
inductive Yaml where
  | null
  | bool (b : Bool)
  | int (i : Int)
  | str (s : String)
  | other (text : String)
  | seq (items : List Yaml)
  | map (entries : List (Yaml × Yaml))

inductive ManifestError where
  | message (text : String)
  /-- the step count of the model is used up -/
  | limit
  deriving DecidableEq, Repr

abbrev Result (α : Type) := Except ManifestError α

def fail {α : Type} (text : String) : Result α := .error (.message text)

namespace Yaml

def isKey (key : String) : Yaml → Bool
  | .str s => s == key
  | _ => false

/-- `key in entries` with its value. -/
def field (entries : List (Yaml × Yaml)) (key : String) : Option Yaml :=
  (entries.find? fun e => e.1.isKey key).map (·.2)

def text : Yaml → Option String
  | .str s => some s
  | _ => none

end Yaml

/-! ## Fields -/

def asDict (value : Yaml) (fieldName : String) : Result (List (Yaml × Yaml)) :=
  match value with
  | .map entries => .ok entries
  | _ => fail (fieldName ++ " must be a mapping")

def asListOfStr (value : Yaml) (fieldName : String) : Result (List String) :=
  match value with
  | .null => .ok []
  | .seq items =>
    match items.mapM Yaml.text with
    | some texts => .ok texts
    | none => fail (fieldName ++ " must be a list of strings")
  | _ => fail (fieldName ++ " must be a list of strings")

def validatePositiveInt (value : Yaml) (fieldName : String) : Result Int :=
  match value with
  | .int i => if i ≤ 0 then fail (fieldName ++ " must be a positive integer") else .ok i
  | _ => fail (fieldName ++ " must be a positive integer")

def validateBool (value : Yaml) (fieldName : String) : Result Bool :=
  match value with
  | .bool b => .ok b
  | _ => fail (fieldName ++ " must be boolean")

/-- A string with more than blanks in it. -/
def nonBlank (value : Option Yaml) (fieldName : String) : Result String :=
  match value with
  | some (.str s) =>
    if pyStrip s = "" then fail (fieldName ++ " must be a non-empty string") else .ok s
  | _ => fail (fieldName ++ " must be a non-empty string")

/-- A target before its `requires` are expanded. -/
structure RawTarget where
  description : String
  command : String
  requires : List String
  preflight : List String
  lock : Bool
  timeoutSeconds : Int
  deriving DecidableEq, Repr

structure Target extends RawTarget where
  requiresExpanded : List String
  deriving DecidableEq, Repr

structure Manifest where
  version : Int
  lockDefault : Bool
  timeoutDefault : Int
  targets : List (String × Target)
  groups : List (String × List String)
  groupsExpanded : List (String × List String)
  deriving DecidableEq, Repr

/-- A non-empty string key. -/
def entryName (key : Yaml) (kind : String) : Result String :=
  match key with
  | .str s => if s = "" then fail (kind ++ " names must be non-empty strings") else .ok s
  | _ => fail (kind ++ " names must be non-empty strings")

def readTarget (lockDefault : Bool) (timeoutDefault : Int) (entry : Yaml × Yaml) :
    Result (String × RawTarget) := do
  let name ← entryName entry.1 "target"
  let path := "targets." ++ name
  let target ← asDict entry.2 path
  let description ← nonBlank (Yaml.field target "description") (path ++ ".description")
  let command ← nonBlank (Yaml.field target "command") (path ++ ".command")
  let requires ← asListOfStr ((Yaml.field target "requires").getD (.seq [])) (path ++ ".requires")
  let preflight ← asListOfStr ((Yaml.field target "preflight").getD (.seq []))
    (path ++ ".preflight")
  let lock ← validateBool ((Yaml.field target "lock").getD (.bool lockDefault)) (path ++ ".lock")
  let timeout ← validatePositiveInt
    ((Yaml.field target "timeout_seconds").getD (.int timeoutDefault)) (path ++ ".timeout_seconds")
  return (name, ⟨pyStrip description, command, requires, preflight, lock, timeout⟩)

def readGroup (entry : Yaml × Yaml) : Result (String × List String) := do
  let name ← entryName entry.1 "group"
  let group ← asDict entry.2 ("groups." ++ name)
  let targets ← asListOfStr ((Yaml.field group "targets").getD .null)
    ("groups." ++ name ++ ".targets")
  if targets.isEmpty then fail ("groups." ++ name ++ ".targets must not be empty")
  else return (name, targets)

/-! ## Groups -/

/-- The elements of `more` that are not in `xs` yet, behind it. -/
def appendNew (xs : List String) : List String → List String
  | [] => xs
  | y :: more => appendNew (if y ∈ xs then xs else xs ++ [y]) more

/-- The targets of the references of one group. -/
def expandRefs (isTarget isGroup : String → Bool) (nested : String → Result (List String))
    (groupName : String) : List String → List String → Result (List String)
  | [], expanded => .ok expanded
  | ref :: refs, expanded =>
    if isTarget ref then
      expandRefs isTarget isGroup nested groupName refs (appendNew expanded [ref])
    else if isGroup ref then
      match nested ref with
      | .error e => .error e
      | .ok names => expandRefs isTarget isGroup nested groupName refs (appendNew expanded names)
    else fail ("group '" ++ groupName ++ "' references unknown target/group '" ++ ref ++ "'")

/-- The `memo` of the source has no effect: `memo or {}` replaces an empty
dictionary at every call, and one is filled only when its call returns.
mirrors dev/lib/govctl_manifest.py:53-97 -/
def expandGroupTargets (groups : List (String × List String)) (isTarget : String → Bool) :
    Nat → List String → String → Result (List String)
  | 0, _, _ => .error .limit
  | fuel + 1, stack, groupName =>
    if groupName ∈ stack then
      fail ("groups contain a cycle: " ++ " -> ".intercalate (stack ++ [groupName]))
    else
      match groups.lookup groupName with
      | none => fail ("unknown group reference: " ++ groupName)
      | some refs =>
        expandRefs isTarget (fun ref => (groups.lookup ref).isSome)
          (expandGroupTargets groups isTarget fuel (stack ++ [groupName])) groupName refs []

/-- mirrors dev/lib/govctl_manifest.py:100-109 -/
def expandRequiresRef (groups : List (String × List String)) (isTarget : String → Bool)
    (ref : String) : Result (List String) :=
  if isTarget ref then .ok [ref]
  else if (groups.lookup ref).isSome then
    expandGroupTargets groups isTarget (groups.length + 1) [] ref
  else fail ("unknown requires reference '" ++ ref ++ "'")

/-- The expanded `requires` of one target. -/
def expandRequires (groups : List (String × List String)) (isTarget : String → Bool)
    (targetName : String) : List String → List String → Result (List String)
  | [], expanded => .ok expanded
  | ref :: refs, expanded =>
    match expandRequiresRef groups isTarget ref with
    | .error e => .error e
    | .ok deps =>
      if targetName ∈ deps then
        fail ("targets." ++ targetName ++ ".requires contains self-reference '" ++ targetName ++ "'")
      else expandRequires groups isTarget targetName refs (appendNew expanded deps)

/-! ## Cycles -/

/-- The message of a cycle closed by `node` at the end of `path`. -/
def requiresCycle (path : List String) (node : String) : ManifestError :=
  .message ("requires graph contains a cycle: " ++
    " -> ".intercalate ((path ++ [node]).drop (path.idxOf node) ++ [node]))

/-- `adjacency.get(node, [])`. -/
def adjacent (adjacency : List (String × List String)) (node : String) : Result (List String) :=
  .ok ((adjacency.lookup node).getD [])

/-- The search of `_detect_requires_cycle` from one node. -/
def cycleDfs (adjacency : List (String × List String)) (fuel : Nat) (path : List String)
    (node : String) (visited : List String) : Result (List String) :=
  depthFirst (adjacent adjacency) (fun _ _ => .ok ()) requiresCycle .limit fuel path node visited

/-- The nodes in the order they were visited.
mirrors dev/lib/govctl_manifest.py:112-132 -/
def detectRequiresCycle (adjacency : List (String × List String)) : Result (List String) :=
  visitAll (fun target visited =>
      if target ∈ visited then .ok visited
      else cycleDfs adjacency (adjacency.length + 1) [] target visited)
    (adjacency.map (·.1)) []

/-! ## The manifest -/

/-- `f` over a list, up to the first error. -/
def collect {α β : Type} (f : α → Result β) : List α → Result (List β)
  | [] => .ok []
  | a :: as => do
    let b ← f a
    let bs ← collect f as
    return b :: bs

def normalizeTarget (groups : List (String × List String)) (isTarget : String → Bool)
    (entry : String × RawTarget) : Result (String × Target) := do
  let expanded ← expandRequires groups isTarget entry.1 entry.2.requires []
  return (entry.1, ⟨entry.2, expanded⟩)

/-- The adjacency `_detect_requires_cycle` gets. -/
def adjacencyOf (targets : List (String × Target)) : List (String × List String) :=
  targets.map fun target => (target.1, target.2.requiresExpanded)

/-- The references of checked targets and groups.
mirrors dev/lib/govctl_manifest.py:202-225 -/
def normalize (version : Int) (lockDefault : Bool) (timeoutDefault : Int)
    (rawTargets : List (String × RawTarget)) (groups : List (String × List String)) :
    Result Manifest := do
  let isTarget := fun name => (rawTargets.lookup name).isSome
  let groupsExpanded ← collect (fun group : String × List String => do
    let names ← expandGroupTargets groups isTarget (groups.length + 1) [] group.1
    return (group.1, names)) groups
  let targets ← collect (normalizeTarget groups isTarget) rawTargets
  let _ ← detectRequiresCycle (adjacencyOf targets)
  return ⟨version, lockDefault, timeoutDefault, targets, groups, groupsExpanded⟩

/-- mirrors dev/lib/govctl_manifest.py:135-234 -/
def validateAndNormalizeManifest (raw : Yaml) : Result Manifest := do
  let root ← asDict raw "manifest"
  match Yaml.field root "version" with
  | none => fail "version is required"
  | some versionIn =>
    let version ← validatePositiveInt versionIn "version"
    let defaults ← asDict ((Yaml.field root "defaults").getD (.map [])) "defaults"
    let lockDefault ← validateBool ((Yaml.field defaults "lock").getD (.bool false)) "defaults.lock"
    let timeoutDefault ← validatePositiveInt
      ((Yaml.field defaults "timeout_seconds").getD (.int 300)) "defaults.timeout_seconds"
    match Yaml.field root "targets" with
    | none => fail "targets is required"
    | some targetsRaw =>
      let targetsIn ← asDict targetsRaw "targets"
      if targetsIn.isEmpty then fail "targets must not be empty"
      else
        let groupsRaw ← asDict ((Yaml.field root "groups").getD (.map [])) "groups"
        let rawTargets ← collect (readTarget lockDefault timeoutDefault) targetsIn
        let groups ← collect readGroup groupsRaw
        normalize version lockDefault timeoutDefault rawTargets groups

/-! ## Expanded names are targets -/

theorem mem_appendNew {x : String} : ∀ {ys xs : List String},
    x ∈ appendNew xs ys ↔ x ∈ xs ∨ x ∈ ys
  | [], xs => by simp [appendNew]
  | y :: ys, xs => by
    rw [appendNew, mem_appendNew]
    split
    next hy =>
      simp only [List.mem_cons]
      constructor
      · rintro (hx | hx)
        · exact .inl hx
        · exact .inr (.inr hx)
      · rintro (hx | rfl | hx)
        · exact .inl hx
        · exact .inl hy
        · exact .inr hx
    next hy => simp [or_assoc]

theorem expandRefs_targets {isTarget isGroup : String → Bool}
    {nested : String → Result (List String)} {groupName : String}
    (hnested : ∀ ref names, nested ref = .ok names → ∀ n ∈ names, isTarget n = true) :
    ∀ {refs expanded names}, expandRefs isTarget isGroup nested groupName refs expanded = .ok names →
      (∀ n ∈ expanded, isTarget n = true) → ∀ n ∈ names, isTarget n = true
  | [], expanded, names, h, hexp => by
    cases h
    exact hexp
  | ref :: refs, expanded, names, h, hexp => by
    have hnew : ∀ more : List String, (∀ n ∈ more, isTarget n = true) →
        ∀ n ∈ appendNew expanded more, isTarget n = true :=
      fun more hmore n hn => (mem_appendNew.mp hn).elim (hexp n) (hmore n)
    rw [expandRefs] at h
    split at h
    next href => exact expandRefs_targets hnested h (hnew _ (by simpa using href))
    next =>
    split at h
    next =>
      cases hn : nested ref with
      | error e => simp [hn] at h
      | ok more =>
        rw [hn] at h
        exact expandRefs_targets hnested h (hnew _ (hnested ref more hn))
    next => simp [fail] at h

theorem expandGroupTargets_targets {groups : List (String × List String)}
    {isTarget : String → Bool} : ∀ (fuel : Nat) (stack : List String) (groupName : String)
    (names : List String), expandGroupTargets groups isTarget fuel stack groupName = .ok names →
      ∀ n ∈ names, isTarget n = true
  | 0, _, _, _, h => by cases h
  | fuel + 1, stack, groupName, names, h => by
    rw [expandGroupTargets] at h
    split at h
    · simp [fail] at h
    · split at h
      · simp [fail] at h
      · exact expandRefs_targets (expandGroupTargets_targets fuel _) h (by simp)

theorem expandRequiresRef_targets {groups : List (String × List String)}
    {isTarget : String → Bool} {ref : String} {names : List String}
    (h : expandRequiresRef groups isTarget ref = .ok names) : ∀ n ∈ names, isTarget n = true := by
  unfold expandRequiresRef at h
  split at h
  next href =>
    cases h
    simpa using href
  next =>
  split at h
  · exact expandGroupTargets_targets _ _ _ _ h
  · simp [fail] at h

theorem expandRequires_targets {groups : List (String × List String)} {isTarget : String → Bool}
    {targetName : String} : ∀ {refs expanded names : List String},
    expandRequires groups isTarget targetName refs expanded = .ok names →
      (∀ n ∈ expanded, isTarget n = true) → ∀ n ∈ names, isTarget n = true
  | [], expanded, names, h, hexp => by
    cases h
    exact hexp
  | ref :: refs, expanded, names, h, hexp => by
    rw [expandRequires] at h
    cases href : expandRequiresRef groups isTarget ref with
    | error e => simp [href] at h
    | ok deps =>
      rw [href] at h
      simp only at h
      split at h
      · simp [fail] at h
      · exact expandRequires_targets h fun n hn =>
          (mem_appendNew.mp hn).elim (hexp n) (expandRequiresRef_targets href n)

/-! ## Normalized manifests -/

theorem collect_mem {α β : Type} {f : α → Result β} : ∀ {as : List α} {bs : List β},
    collect f as = .ok bs → ∀ b ∈ bs, ∃ a ∈ as, f a = .ok b
  | [], bs, h, b, hb => by
    cases h
    cases hb
  | a :: as, bs, h, b, hb => by
    obtain ⟨b', hb', h⟩ := bind_eq_ok h
    obtain ⟨bs', hbs, h⟩ := bind_eq_ok h
    cases h
    rcases List.mem_cons.mp hb with rfl | hb
    · exact ⟨a, List.mem_cons_self, hb'⟩
    · obtain ⟨a', ha', hf⟩ := collect_mem hbs b hb
      exact ⟨a', List.mem_cons_of_mem _ ha', hf⟩

theorem collect_map {α β γ : Type} {f : α → Result β} {key : α → γ} {key' : β → γ}
    (hkey : ∀ a b, f a = .ok b → key' b = key a) : ∀ {as : List α} {bs : List β},
    collect f as = .ok bs → bs.map key' = as.map key
  | [], bs, h => by
    cases h
    rfl
  | a :: as, bs, h => by
    obtain ⟨b', hb', h⟩ := bind_eq_ok h
    obtain ⟨bs', hbs, h⟩ := bind_eq_ok h
    cases h
    rw [List.map_cons, List.map_cons, hkey a b' hb', collect_map hkey hbs]

namespace Manifest

def hasTarget (m : Manifest) (name : String) : Prop := (m.targets.lookup name).isSome

/-- `d` is among the expanded requirements of `t`. -/
def Requires (m : Manifest) (t d : String) : Prop :=
  ∃ target, m.targets.lookup t = some target ∧ d ∈ target.requiresExpanded

/-- References lead to targets, and the targets can be listed with requirements
first. -/
structure Normal (m : Manifest) : Prop where
  requires : ∀ t d, m.Requires t d → m.hasTarget d
  groups : ∀ group ∈ m.groupsExpanded, ∀ t ∈ group.2, m.hasTarget t
  order : ∃ l : List String, Topo m.Requires l ∧ l.length ≤ m.targets.length ∧
    ∀ t, m.hasTarget t → t ∈ l

end Manifest

/-- The search of the check lists every target, requirements first. -/
theorem detectRequiresCycle_finishes {adjacency : List (String × List String)} {l : List String}
    (h : detectRequiresCycle adjacency = .ok l) :
    Finishes (HasSucc (adjacent adjacency)) [] (adjacency.map (·.1)) [] l := by
  refine visitAll_finishes (fun n done done' hn => ?_) h
  split at hn
  next hdone =>
    cases hn
    exact ⟨List.prefix_refl _, fun x hx => .inl hx, fun x hx => .inl hx, by simpa, id, id⟩
  next => exact depthFirst_finishes _ _ _ _ _ hn

theorem edge_adjacencyOf {targets : List (String × Target)} {t d : String} :
    HasSucc (adjacent (adjacencyOf targets)) t d ↔
      ∃ target, targets.lookup t = some target ∧ d ∈ target.requiresExpanded := by
  simp only [HasSucc, adjacent, adjacencyOf, lookup_map, Except.ok.injEq, exists_eq_left']
  cases targets.lookup t <;> simp

/-- An accepted adjacency has an order with requirements first. -/
theorem detectRequiresCycle_order {targets : List (String × Target)} {l : List String}
    (h : detectRequiresCycle (adjacencyOf targets) = .ok l)
    (hrequires : ∀ t target, targets.lookup t = some target →
      ∀ d ∈ target.requiresExpanded, (targets.lookup d).isSome) :
    Topo (fun t d => ∃ target, targets.lookup t = some target ∧ d ∈ target.requiresExpanded) l ∧
      l.length ≤ targets.length ∧ ∀ t, (targets.lookup t).isSome → t ∈ l := by
  have hfin := detectRequiresCycle_finishes h
  have hkeys : (adjacencyOf targets).map (·.1) = targets.map (·.1) := by
    rw [adjacencyOf, List.map_map]
    rfl
  rw [hkeys] at hfin
  have hreach : ∀ r x, (targets.lookup r).isSome →
      Relation.ReflTransGen (HasSucc (adjacent (adjacencyOf targets))) r x →
      (targets.lookup x).isSome := by
    intro r x hr hrx
    induction hrx with
    | refl => exact hr
    | tail _ hedge _ =>
      obtain ⟨target, ht, hd⟩ := edge_adjacencyOf.mp hedge
      exact hrequires _ target ht _ hd
  refine ⟨?_, ?_, fun t ht => hfin.listed t (lookup_isSome_map_fst.mp ht)⟩
  · intro pre n post hsplit d hd
    exact hfin.topo (topo_nil _) pre n post hsplit d (edge_adjacencyOf.mpr hd)
  · have hsub : l ⊆ targets.map (·.1) := by
      intro x hx
      rcases hfin.reached x hx with hnil | ⟨r, hr, hrx⟩
      · cases hnil
      · exact lookup_isSome_map_fst.mp (hreach r x (lookup_isSome_map_fst.mpr hr) hrx)
    have hle := (List.subperm_of_subset (hfin.nodup List.nodup_nil) hsub).length_le
    rwa [List.length_map] at hle

/-- A normalised target keeps its name, and requires targets. -/
theorem normalizeTarget_eq_ok {groups : List (String × List String)} {isTarget : String → Bool}
    {raw : String × RawTarget} {target : String × Target}
    (h : normalizeTarget groups isTarget raw = .ok target) :
    target.1 = raw.1 ∧ ∀ d ∈ target.2.requiresExpanded, isTarget d = true := by
  obtain ⟨expanded, hexp, h⟩ := bind_eq_ok h
  cases h
  exact ⟨rfl, expandRequires_targets hexp (by simp)⟩

/-- The normalised targets have the names of the checked ones. -/
theorem hasTarget_of_collect {groups : List (String × List String)}
    {rawTargets : List (String × RawTarget)} {targets : List (String × Target)}
    {isTarget : String → Bool}
    (h : collect (normalizeTarget groups isTarget) rawTargets = .ok targets)
    {t : String} (ht : (rawTargets.lookup t).isSome) : (targets.lookup t).isSome := by
  have hkeys : targets.map (·.1) = rawTargets.map (·.1) :=
    collect_map (fun _ _ h => (normalizeTarget_eq_ok h).1) h
  rw [lookup_isSome_map_fst] at ht ⊢
  rwa [hkeys]

theorem requires_of_collect {groups : List (String × List String)}
    {rawTargets : List (String × RawTarget)} {targets : List (String × Target)}
    (h : collect (normalizeTarget groups fun name => (rawTargets.lookup name).isSome) rawTargets =
      .ok targets) {t : String} {target : Target} (ht : targets.lookup t = some target)
    {d : String} (hd : d ∈ target.requiresExpanded) : (targets.lookup d).isSome := by
  obtain ⟨raw, -, hraw⟩ := collect_mem h _ (mem_of_lookup ht)
  exact hasTarget_of_collect h ((normalizeTarget_eq_ok hraw).2 d hd)

theorem normalize_normal {version timeoutDefault : Int} {lockDefault : Bool}
    {rawTargets : List (String × RawTarget)} {groups : List (String × List String)} {m : Manifest}
    (h : normalize version lockDefault timeoutDefault rawTargets groups = .ok m) : m.Normal := by
  obtain ⟨groupsExpanded, hgroups, h⟩ := bind_eq_ok h
  obtain ⟨targets, htargets, h⟩ := bind_eq_ok h
  obtain ⟨l, hl, h⟩ := bind_eq_ok h
  cases h
  refine ⟨fun t d ⟨target, ht, hd⟩ => requires_of_collect htargets ht hd,
    fun group hgroup t ht => ?_, ?_⟩
  · obtain ⟨raw, -, hraw⟩ := collect_mem hgroups group hgroup
    obtain ⟨names, hnames, hraw⟩ := bind_eq_ok hraw
    cases hraw
    exact hasTarget_of_collect htargets (expandGroupTargets_targets _ _ _ _ hnames t ht)
  · exact ⟨l, detectRequiresCycle_order hl fun t target ht d hd =>
      requires_of_collect htargets ht hd⟩

/-- Every manifest the validation accepts is normal. -/
theorem validateAndNormalizeManifest_normal {raw : Yaml} {m : Manifest}
    (h : validateAndNormalizeManifest raw = .ok m) : m.Normal := by
  obtain ⟨root, -, h⟩ := bind_eq_ok h
  split at h
  · cases h
  obtain ⟨version, -, h⟩ := bind_eq_ok h
  obtain ⟨defaults, -, h⟩ := bind_eq_ok h
  obtain ⟨lockDefault, -, h⟩ := bind_eq_ok h
  obtain ⟨timeoutDefault, -, h⟩ := bind_eq_ok h
  split at h
  · cases h
  obtain ⟨targetsIn, -, h⟩ := bind_eq_ok h
  split at h
  · cases h
  obtain ⟨groupsRaw, -, h⟩ := bind_eq_ok h
  obtain ⟨rawTargets, -, h⟩ := bind_eq_ok h
  obtain ⟨groups, -, h⟩ := bind_eq_ok h
  exact normalize_normal h

/-! ## The step counts suffice -/

theorem detectRequiresCycle_ne_limit {targets : List (String × Target)}
    (hrequires : ∀ t target, targets.lookup t = some target →
      ∀ d ∈ target.requiresExpanded, (targets.lookup d).isSome) :
    detectRequiresCycle (adjacencyOf targets) ≠ .error .limit := by
  have hkeys : (adjacencyOf targets).map (·.1) = targets.map (·.1) := by
    rw [adjacencyOf, List.map_map]
    rfl
  refine visitAll_ne fun n hn done => ?_
  split
  · simp
  · refine depthFirst_ne_limit (V := targets.map (·.1)) (fun t ht d hd => ?_)
      (fun _ => by simp [adjacent]) (fun _ _ => by simp) (fun _ _ => by simp [requiresCycle]) _ []
      n done (hkeys ▸ hn) List.nodup_nil (by simp) (by simp [adjacencyOf])
    obtain ⟨target, htarget, hmem⟩ := edge_adjacencyOf.mp hd
    exact lookup_isSome_map_fst.mp (hrequires t target htarget d hmem)

theorem expandRefs_ne_limit {isTarget isGroup : String → Bool}
    {nested : String → Result (List String)} {groupName : String}
    (hnested : ∀ ref, isGroup ref = true → nested ref ≠ .error .limit) :
    ∀ {refs expanded : List String},
      expandRefs isTarget isGroup nested groupName refs expanded ≠ .error .limit
  | [], _ => by simp [expandRefs]
  | ref :: refs, expanded => by
    rw [expandRefs]
    split
    · exact expandRefs_ne_limit hnested
    · split
      next href =>
        cases hn : nested ref with
        | error e =>
          intro heq
          exact hnested ref href (by rw [hn]; simpa using heq)
        | ok names => exact expandRefs_ne_limit hnested
      next => simp [fail]

/-- The stack holds distinct groups, so it is no longer than their list. -/
theorem expandGroupTargets_ne_limit {groups : List (String × List String)}
    {isTarget : String → Bool} : ∀ (fuel : Nat) (stack : List String) (groupName : String),
    stack.Nodup → (∀ g ∈ stack, (groups.lookup g).isSome) →
      groups.length < fuel + stack.length →
      expandGroupTargets groups isTarget fuel stack groupName ≠ .error .limit
  | 0, stack, _, hnd, hsub, hlen => by
    have hsub' : stack ⊆ groups.map (·.1) := fun g hg => lookup_isSome_map_fst.mp (hsub g hg)
    have hle := (List.subperm_of_subset hnd hsub').length_le
    rw [List.length_map] at hle
    omega
  | fuel + 1, stack, groupName, hnd, hsub, hlen => by
    rw [expandGroupTargets]
    split
    · simp [fail]
    next hstack =>
    cases hrefs : groups.lookup groupName with
    | none => simp [fail]
    | some refs =>
      refine expandRefs_ne_limit fun ref _ => ?_
      refine expandGroupTargets_ne_limit fuel _ ref ?_ (fun g hg => ?_) ?_
      · refine List.nodup_append.mpr ⟨hnd, by simp, ?_⟩
        rintro x hx y hy rfl
        exact hstack (List.mem_singleton.mp hy ▸ hx)
      · rcases List.mem_append.mp hg with hg | hg
        · exact hsub g hg
        · rw [List.mem_singleton.mp hg, hrefs]
          rfl
      · rw [List.length_append, List.length_singleton]
        omega

theorem bind_ne_limit {α β : Type} {x : Result α} {f : α → Result β} (hx : x ≠ .error .limit)
    (hf : ∀ a, x = .ok a → f a ≠ .error .limit) : (x >>= f) ≠ .error .limit := by
  cases x with
  | error e => exact fun h => hx (by simpa [bind, Except.bind] using h)
  | ok a => exact hf a rfl

theorem collect_ne_limit {α β : Type} {f : α → Result β} (hf : ∀ a, f a ≠ .error .limit) :
    ∀ as, collect f as ≠ .error .limit
  | [] => by simp [collect]
  | a :: as => bind_ne_limit (hf a) fun _ _ => bind_ne_limit (collect_ne_limit hf as) fun _ _ => by
      simp [pure, Except.pure]

theorem expandRequires_ne_limit {groups : List (String × List String)} {isTarget : String → Bool}
    {targetName : String} : ∀ {refs expanded : List String},
    expandRequires groups isTarget targetName refs expanded ≠ .error .limit
  | [], _ => by simp [expandRequires]
  | ref :: refs, expanded => by
    have href : expandRequiresRef groups isTarget ref ≠ .error .limit := by
      unfold expandRequiresRef
      split
      · simp
      · split
        · exact expandGroupTargets_ne_limit _ [] ref List.nodup_nil (by simp) (by simp)
        · simp [fail]
    rw [expandRequires]
    cases hdeps : expandRequiresRef groups isTarget ref with
    | error e => exact fun h => href (by rw [hdeps]; simpa using h)
    | ok deps =>
      simp only
      split
      · simp [fail]
      · exact expandRequires_ne_limit

/-- What the model refuses, the source refuses. -/
theorem normalize_ne_limit {version timeoutDefault : Int} {lockDefault : Bool}
    {rawTargets : List (String × RawTarget)} {groups : List (String × List String)} :
    normalize version lockDefault timeoutDefault rawTargets groups ≠ .error .limit := by
  refine bind_ne_limit (collect_ne_limit (fun group => bind_ne_limit ?_ fun _ _ => ?_) _)
    fun groupsExpanded _ => bind_ne_limit (collect_ne_limit (fun raw => bind_ne_limit
      expandRequires_ne_limit fun _ _ => ?_) _) fun targets htargets => bind_ne_limit ?_ fun _ _ => ?_
  · exact expandGroupTargets_ne_limit _ [] group.1 List.nodup_nil (by simp) (by simp)
  · simp [pure, Except.pure]
  · simp [pure, Except.pure]
  · exact detectRequiresCycle_ne_limit fun t target ht d hd => requires_of_collect htargets ht hd
  · simp [pure, Except.pure]

end Nightfall.Govctl
