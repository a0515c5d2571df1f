import Nightfall.L9Govctl.Manifest

/-!
# Resolving targets (`dev/lib/govctl_resolve.py`)

`resolveRequestedTargets` expands the requested names and searches the
requirements depth first; a target is listed when the search leaves it.

`resolve_order`: on an accepted manifest this never raises, and the list is the
closure of the request with requirements first.
-/
namespace Nightfall.Govctl
open Nightfall.Core

inductive ResolveError where
  | message (text : String)
  /-- `targets[name]` without such a target -/
  | keyError (name : String)
  /-- the step count of the model is used up -/
  | limit
  deriving DecidableEq, Repr

/-- mirrors dev/lib/govctl_resolve.py:43-51 -/
def expandRequestedName (m : Manifest) (name : String) : Except ResolveError (List String) :=
  if (m.targets.lookup name).isSome then .ok [name]
  else
    match m.groupsExpanded.lookup name with
    | some names => .ok names
    | none => .error (.message ("unknown target/group '" ++ name ++ "'"))

/-- The requested targets, each once. -/
def requestedTargets (m : Manifest) : List String → List String → Except ResolveError (List String)
  | [], acc => .ok acc
  | name :: names, acc =>
    match expandRequestedName m name with
    | .error e => .error e
    | .ok expanded => requestedTargets m names (appendNew acc expanded)

/-- `targets[target_name]["requires_expanded"]`. -/
def requiresOf (m : Manifest) (name : String) : Except ResolveError (List String) :=
  match m.targets.lookup name with
  | none => .error (.keyError name)
  | some target => .ok target.requiresExpanded

/-- The check of one requirement. -/
def checkKnown (m : Manifest) (name dep : String) : Except ResolveError Unit :=
  if (m.targets.lookup dep).isSome then .ok ()
  else .error (.message ("target '" ++ name ++ "' depends on unknown target '" ++ dep ++ "'"))

def resolveCycle (_ : List String) (name : String) : ResolveError :=
  .message ("cycle encountered while resolving target '" ++ name ++ "'")

/-- The nested `dfs` of the source; `resolved` has the targets of `visited`. -/
def resolveDfs (m : Manifest) (name : String) (resolved : List String) :
    Except ResolveError (List String) :=
  depthFirst (requiresOf m) (checkKnown m) resolveCycle .limit (m.targets.length + 1) [] name resolved

/-- mirrors dev/lib/govctl_resolve.py:54-97 -/
def resolveRequestedTargets (m : Manifest) (requested : List String) :
    Except ResolveError (List String) :=
  if requested.isEmpty then
    .error (.message "at least one target or group must be requested")
  else
    match requestedTargets m requested [] with
    | .error e => .error e
    | .ok names => visitAll (resolveDfs m) names []

/-! ## The request -/

/-- A target or a group of the manifest. -/
def Manifest.Known (m : Manifest) (name : String) : Prop :=
  m.hasTarget name ∨ (m.groupsExpanded.lookup name).isSome

/-- The targets a requested name stands for. -/
def Manifest.StandsFor (m : Manifest) (name t : String) : Prop :=
  (m.hasTarget name ∧ t = name) ∨
    (¬ m.hasTarget name ∧ ∃ names, m.groupsExpanded.lookup name = some names ∧ t ∈ names)

theorem expandRequestedName_eq_ok {m : Manifest} {name : String} (h : m.Known name) :
    ∃ names, expandRequestedName m name = .ok names ∧ ∀ t, t ∈ names ↔ m.StandsFor name t := by
  unfold expandRequestedName
  by_cases htarget : (m.targets.lookup name).isSome
  · refine ⟨[name], if_pos htarget, fun t => ?_⟩
    simp [Manifest.StandsFor, Manifest.hasTarget, htarget]
  · obtain ⟨names, hnames⟩ := Option.isSome_iff_exists.mp (h.resolve_left htarget)
    refine ⟨names, by rw [if_neg htarget, hnames], fun t => ?_⟩
    simp [Manifest.StandsFor, Manifest.hasTarget, htarget, hnames]

theorem requestedTargets_eq_ok {m : Manifest} : ∀ (requested acc : List String),
    (∀ name ∈ requested, m.Known name) →
    ∃ names, requestedTargets m requested acc = .ok names ∧
      ∀ t, t ∈ names ↔ t ∈ acc ∨ ∃ name ∈ requested, m.StandsFor name t
  | [], acc, _ => ⟨acc, rfl, by simp⟩
  | name :: requested, acc, hknown => by
    obtain ⟨expanded, hexp, hmem⟩ := expandRequestedName_eq_ok (hknown name List.mem_cons_self)
    obtain ⟨names, hnames, hall⟩ := requestedTargets_eq_ok requested (appendNew acc expanded)
      fun n hn => hknown n (List.mem_cons_of_mem _ hn)
    refine ⟨names, by rw [requestedTargets, hexp]; exact hnames, fun t => ?_⟩
    rw [hall, mem_appendNew, hmem]
    simp only [List.mem_cons, exists_eq_or_imp, or_assoc]

/-! ## The search -/

theorem edge_requiresOf {m : Manifest} {t d : String} :
    HasSucc (requiresOf m) t d ↔ m.Requires t d := by
  unfold HasSucc requiresOf Manifest.Requires
  cases m.targets.lookup t <;> simp

/-- On an accepted manifest the search never raises. -/
theorem resolveDfs_total {m : Manifest} (hm : m.Normal) {name : String} (hname : m.hasTarget name)
    (resolved : List String) : ∃ resolved', resolveDfs m name resolved = .ok resolved' := by
  obtain ⟨l, htopo, hlen, hall⟩ := hm.order
  have hfalls : Falls (requiresOf m) (checkKnown m) m.hasTarget l.idxOf := by
    intro t ht
    obtain ⟨target, htarget⟩ := Option.isSome_iff_exists.mp ht
    refine ⟨target.requiresExpanded, by rw [requiresOf, htarget], fun d hd => ?_⟩
    have hreq : m.Requires t d := ⟨target, htarget, hd⟩
    have hhas := hm.requires t d hreq
    exact ⟨hhas, (topo_rank htopo (hall t ht) hreq).2, if_pos hhas⟩
  have hlt := List.idxOf_lt_length_of_mem (hall name hname)
  exact depthFirst_total hfalls _ [] name resolved hname (by omega) (by simp)

/-- A requested target or one that a requested target needs. -/
def Manifest.Needed (m : Manifest) (requested : List String) (t : String) : Prop :=
  ∃ name ∈ requested, ∃ r, m.StandsFor name r ∧ Relation.ReflTransGen m.Requires r t

/-- For every accepted manifest and every request of known names: the resolution
returns, lists no target twice, lists exactly what is requested or needed, and
every target behind its requirements. -/
theorem resolve_order (raw : Yaml) (m : Manifest) (requested : List String)
    (haccepted : validateAndNormalizeManifest raw = .ok m) (hne : requested ≠ [])
    (hknown : ∀ name ∈ requested, m.Known name) :
    ∃ resolved, resolveRequestedTargets m requested = .ok resolved ∧ resolved.Nodup ∧
      (∀ t, t ∈ resolved ↔ m.Needed requested t) ∧ Topo m.Requires resolved := by
  have hm := validateAndNormalizeManifest_normal haccepted
  obtain ⟨names, hnames, hmem⟩ := requestedTargets_eq_ok requested [] hknown
  have hhas : ∀ t ∈ names, m.hasTarget t := by
    intro t ht
    obtain ⟨name, -, ⟨h, rfl⟩ | ⟨-, group, hgroup, hin⟩⟩ :=
      ((hmem t).mp ht).resolve_left (List.not_mem_nil)
    · exact h
    · exact hm.groups _ (mem_of_lookup hgroup) t hin
  obtain ⟨resolved, hresolved⟩ := visitAll_total _ names []
    fun t ht done => resolveDfs_total hm (hhas t ht) done
  have hfin : Finishes (HasSucc (requiresOf m)) [] names [] resolved :=
    visitAll_finishes (fun n done done' hn => depthFirst_finishes _ _ _ _ _ hn) hresolved
  have hedge : HasSucc (requiresOf m) = m.Requires := by
    funext t d
    exact propext edge_requiresOf
  rw [hedge] at hfin
  have htopo := hfin.topo (topo_nil _)
  refine ⟨resolved, ?_, hfin.nodup List.nodup_nil, fun t => ⟨fun ht => ?_, fun ht => ?_⟩, htopo⟩
  · rw [resolveRequestedTargets, if_neg (by simpa using hne), hnames]
    exact hresolved
  · obtain ⟨r, hr, hreach⟩ := (hfin.reached t ht).resolve_left List.not_mem_nil
    obtain ⟨name, hname, hstands⟩ := ((hmem r).mp hr).resolve_left List.not_mem_nil
    exact ⟨name, hname, r, hstands, hreach⟩
  · obtain ⟨name, hname, r, hstands, hreach⟩ := ht
    have hr : r ∈ resolved := hfin.listed r ((hmem r).mpr (.inr ⟨name, hname, hstands⟩))
    -- what is listed is closed under requirements
    induction hreach with
    | refl => exact hr
    | tail _ hedge ih => exact (topo_rank htopo ih hedge).1

/-! A manifest of two targets and a group. -/

def sampleTarget (description command : String) (requires : List String) : Yaml :=
  .map [(.str "description", .str description), (.str "command", .str command),
    (.str "requires", .seq (requires.map .str))]

def sampleRaw : Yaml :=
  .map [(.str "version", .int 1),
    (.str "targets", .map [(.str "web.test", sampleTarget "Test" "npm test" ["web.build"]),
      (.str "web.build", sampleTarget "Build" "npm run build" [])]),
    (.str "groups", .map [(.str "all", .map [(.str "targets", .seq [.str "web.test"])])])]

def sampleManifest : Manifest where
  version := 1
  lockDefault := false
  timeoutDefault := 300
  targets := [("web.test", ⟨⟨"Test", "npm test", ["web.build"], [], false, 300⟩, ["web.build"]⟩),
    ("web.build", ⟨⟨"Build", "npm run build", [], [], false, 300⟩, []⟩)]
  groups := [("all", ["web.test"])]
  groupsExpanded := [("all", ["web.test"])]

/-- The group resolves to its target behind the build it needs. -/
theorem resolve_all : validateAndNormalizeManifest sampleRaw = .ok sampleManifest ∧
    resolveRequestedTargets sampleManifest ["all"] = .ok ["web.build", "web.test"] ∧
    Topo sampleManifest.Requires ["web.build", "web.test"] := by
  have haccepted : validateAndNormalizeManifest sampleRaw = .ok sampleManifest := by
    decide +kernel
  have hresolved : resolveRequestedTargets sampleManifest ["all"] =
      .ok ["web.build", "web.test"] := by decide +kernel
  obtain ⟨resolved, hok, -, -, htopo⟩ := resolve_order sampleRaw sampleManifest ["all"] haccepted
    (by simp) (by simp [Manifest.Known, sampleManifest, List.lookup_cons])
  rw [hresolved, Except.ok.injEq] at hok
  exact ⟨haccepted, hresolved, hok ▸ htopo⟩

end Nightfall.Govctl
