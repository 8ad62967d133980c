import GCode.Flavor.Registry
import GCode.Proofs.Text
import Mathlib.Data.String.Basic

/-!
# Runs of a registry

Whatever is done to a registry, a name stands for the last flavor that was added with it, and the active flavor is the
one of the last name that was found.
-/

namespace GCode

/-! ## Names of flavor files -/

/-- Something stands in front of the extension. -/
def IsFlavorFile (name : String) : Prop :=
  ∃ stem, stem ≠ "" ∧ name = stem ++ ".toml"

theorem extension?_of_append {stem ext : List Char} (hstem : stem ≠ []) (hext : '.' ∉ ext) :
    extension? (String.ofList (stem ++ '.' :: ext)) = some (String.ofList ext) := by
  have htake : (ext.reverse ++ '.' :: stem.reverse).takeWhile (· ≠ '.') = ext.reverse := by
    apply Text.takeWhile_append_of_stops
    · intro c hc
      rw [decide_eq_true_eq]
      rintro rfl
      exact hext (List.mem_reverse.mp hc)
    · rintro _ ⟨⟩
      rfl
  have hlength := List.length_pos_iff.mpr hstem
  simp only [extension?, String.toList_ofList, List.reverse_append, List.reverse_cons, List.append_assoc,
    List.singleton_append, htake, List.reverse_reverse, List.length_append, List.length_cons]
  rw [if_pos]
  simp only [Bool.and_eq_true, decide_eq_true_eq]
  omega

theorem extension?_eq_some_iff {name ext : String} :
    extension? name = some ext ↔ '.' ∉ ext.toList ∧ ∃ stem, stem ≠ "" ∧ name = stem ++ "." ++ ext := by
  constructor
  · intro h
    have hall : ∀ c ∈ name.toList.reverse.takeWhile (· ≠ '.'), c ≠ '.' :=
      fun c hc => by simpa using Text.all_of_mem_takeWhile c hc
    have hcut := List.takeWhile_append_dropWhile (p := (· ≠ '.')) (l := name.toList.reverse)
    have hstop := Text.stops_dropWhile (· ≠ '.') name.toList.reverse
    simp only [extension?, Option.ite_none_right_eq_some, Bool.and_eq_true, decide_eq_true_eq,
      List.length_reverse] at h
    -- backwards, the extension stands in front of the last point
    generalize name.toList.reverse.takeWhile (· ≠ '.') = behind at h hcut hall
    generalize name.toList.reverse.dropWhile (· ≠ '.') = before at hcut hstop
    obtain ⟨⟨hlt, hstem⟩, hext⟩ := h
    cases hext
    have hname : name.toList = before.reverse ++ behind.reverse := by
      rw [← List.reverse_append, hcut, List.reverse_reverse]
    rw [hname, List.length_append, List.length_reverse, List.length_reverse] at hlt hstem
    cases before with
    | nil => simp at hlt
    | cons c before =>
        obtain rfl : c = '.' := by simpa using hstop
        refine ⟨by simpa using fun hmem => hall '.' hmem rfl, String.ofList before.reverse, ?_, ?_⟩
        · rw [List.length_cons] at hstem
          rintro hnil
          have hbefore : before = [] := by simpa using hnil
          rw [hbefore, List.length_nil] at hstem
          omega
        · apply String.toList_inj.mp
          simp [hname]
  · rintro ⟨hext, stem, hstem, rfl⟩
    have htext : stem ++ "." ++ ext = String.ofList (stem.toList ++ '.' :: ext.toList) := by
      apply String.toList_inj.mp
      simp
    rw [htext, extension?_of_append (by simpa using hstem) hext, String.ofList_toList]

theorem isFlavorFile_iff {name : String} : IsFlavorFile name ↔ extension? name = some "toml" := by
  have hdot : '.' ∉ "toml".toList := by decide
  have htail (stem : String) : stem ++ "." ++ "toml" = stem ++ ".toml" := by
    rw [String.append_assoc]
    rfl
  simp only [IsFlavorFile, extension?_eq_some_iff, hdot, not_false_eq_true, true_and, htail]

instance (name : String) : Decidable (IsFlavorFile name) :=
  decidable_of_iff _ isFlavorFile_iff.symm

theorem joinPath_le_joinPath {directory a b : String} (h : a ≤ b) : joinPath directory a ≤ joinPath directory b := by
  have happend (front : String) : front ++ a ≤ front ++ b := by
    rcases h.lt_or_eq with hlt | rfl
    · rw [String.lt_iff] at hlt
      apply le_of_lt
      rw [String.lt_iff, String.toList_append, String.toList_append]
      exact List.append_left_lt hlt
    · exact le_rfl
  rw [joinPath, joinPath]
  split
  · exact happend _
  · exact happend _

namespace Registry

/-! ## Loading a directory -/

/-- The names in a directory; one that is missing has none. -/
def directoryNames (files : FileSystem) (directory : String) : Except FileError (List String) :=
  if files.isDirectory directory then files.names directory else .ok []

/-- The paths that are tried; a directory that cannot be read has none. -/
def directoryPaths (files : FileSystem) (directory : String) : List String :=
  flavorPaths directory ((directoryNames files directory).toOption.getD [])

/-- The flavors of the files that can be loaded. -/
def directoryFlavors (files : FileSystem) (directory : String) : List Flavor :=
  (directoryPaths files directory).filterMap fun path => (readFlavor files path).toOption

@[simp] theorem flavorPaths_nil (directory : String) : flavorPaths directory [] = [] := by
  simp [flavorPaths]

theorem perm_flavorPaths (directory : String) (names : List String) :
    (flavorPaths directory names).Perm
      ((names.filter fun name => IsFlavorFile name).map (joinPath directory)) := by
  simp only [flavorPaths, isFlavorFile_iff]
  exact (List.mergeSort_perm _ _).map _

theorem pairwise_flavorPaths (directory : String) (names : List String) :
    (flavorPaths directory names).Pairwise (· ≤ ·) := by
  have hle (a b : String) : (!decide (b < a)) = true ↔ a ≤ b := by
    rw [Bool.not_eq_true', decide_eq_false_iff_not, not_lt]
  rw [flavorPaths, List.pairwise_map]
  refine (List.pairwise_mergeSort ?_ ?_ _).imp fun h => joinPath_le_joinPath ((hle _ _).mp h)
  · exact fun a b c hab hbc => (hle a c).mpr (((hle a b).mp hab).trans ((hle b c).mp hbc))
  · exact fun a b => (Bool.or_eq_true _ _).mpr ((le_total a b).imp (hle a b).mpr (hle b a).mpr)

/-- The order of the paths leaves no choice. -/
theorem flavorPaths_eq {directory : String} {names paths : List String}
    (hperm : paths.Perm ((names.filter fun name => IsFlavorFile name).map (joinPath directory)))
    (hsorted : paths.Pairwise (· ≤ ·)) : flavorPaths directory names = paths :=
  ((perm_flavorPaths directory names).trans hperm.symm).eq_of_pairwise (fun _ _ _ _ => le_antisymm)
    (pairwise_flavorPaths directory names) hsorted

theorem foldl_loadFile (files : FileSystem) (paths : List String) (state : Nat × Registry) :
    paths.foldl (loadFile files) state =
      (state.1 + (paths.filterMap fun path => (readFlavor files path).toOption).length,
        (paths.filterMap fun path => (readFlavor files path).toOption).foldl add state.2) := by
  induction paths generalizing state with
  | nil => rfl
  | cons path paths ih =>
      rw [List.foldl_cons, ih, loadFile, List.filterMap_cons]
      cases readFlavor files path with
      | error e => rfl
      | ok flavor =>
          simp only [Except.toOption, List.length_cons, List.foldl_cons]
          rw [Nat.add_assoc, Nat.add_comm 1]

/-- Loading a directory is adding its flavors, and counts them, if the directory can be read. -/
theorem loadDirectory_eq (registry : Registry) (files : FileSystem) (directory : String) :
    registry.loadDirectory files directory =
      (match directoryNames files directory with
        | .ok _ => .ok (directoryFlavors files directory).length
        | .error e => .error (.unreadable directory e),
      (directoryFlavors files directory).foldl add registry) := by
  rw [loadDirectory, directoryFlavors, directoryPaths, directoryNames]
  split
  · cases files.names directory with
    | ok names =>
        simp only [foldl_loadFile, Nat.zero_add]
        rfl
    | error e => simp [Except.toOption]
  · simp [Except.toOption]

/-! ## Adding -/

/-- The last flavor with a name. -/
def newest (flavors : List Flavor) (name : String) : Option Flavor :=
  (flavors.filter fun flavor => flavor.name = name).getLast?

theorem newest_append (flavors added : List Flavor) (name : String) :
    newest (flavors ++ added) name = (newest added name).or (newest flavors name) := by
  rw [newest, List.filter_append, List.getLast?_append]
  rfl

theorem lookup_filter_ne {entries : List (String × Flavor)} {key name : String} (h : key ≠ name) :
    (entries.filter fun entry => entry.1 != key).lookup name = entries.lookup name := by
  induction entries with
  | nil => rfl
  | cons entry entries ih =>
      obtain ⟨other, flavor⟩ := entry
      by_cases hother : other = key
      · have hname : (name == other) = false := by simpa [hother] using h.symm
        simp [hother, List.lookup_cons, hother ▸ hname, ih]
      · simp [hother, List.lookup_cons, ih]

theorem get?_add (registry : Registry) (flavor : Flavor) (name : String) :
    (registry.add flavor).get? name = (newest [flavor] name).or (registry.get? name) := by
  by_cases h : flavor.name = name
  · rw [← h, get?_add_self]
    simp [newest]
  · have hkey : (name == flavor.name) = false := by simpa using Ne.symm h
    simp [get?, add, newest, h, List.lookup_cons, hkey, lookup_filter_ne h]

theorem get?_foldl_add (flavors : List Flavor) (registry : Registry) (name : String) :
    (flavors.foldl add registry).get? name = (newest flavors name).or (registry.get? name) := by
  induction flavors generalizing registry with
  | nil => rfl
  | cons flavor flavors ih =>
      rw [List.foldl_cons, ih, get?_add, ← Option.or_assoc, ← newest_append]
      rfl

theorem active_foldl_add (flavors : List Flavor) (registry : Registry) :
    (flavors.foldl add registry).active = registry.active := by
  induction flavors generalizing registry with
  | nil => rfl
  | cons flavor flavors ih => rw [List.foldl_cons, ih, active_add]

/-- Every flavor is under its own name, and every name is there once. -/
structure Keyed (registry : Registry) : Prop where
  named : ∀ entry ∈ registry.flavors, entry.1 = entry.2.name
  nodup : (registry.flavors.map Prod.fst).Nodup

theorem Keyed.add {registry : Registry} (h : registry.Keyed) (flavor : Flavor) : (registry.add flavor).Keyed where
  named := by
    rw [Registry.add, List.forall_mem_cons]
    exact ⟨rfl, fun entry hentry => h.named entry (List.mem_of_mem_filter hentry)⟩
  nodup := by
    rw [Registry.add, List.map_cons, List.nodup_cons]
    refine ⟨?_, h.nodup.sublist (List.filter_sublist.map _)⟩
    intro hmem
    obtain ⟨entry, hentry, hname⟩ := List.mem_map.mp hmem
    simpa [hname] using (List.mem_filter.mp hentry).2

theorem Keyed.foldl_add {registry : Registry} (h : registry.Keyed) (flavors : List Flavor) :
    (flavors.foldl Registry.add registry).Keyed := by
  induction flavors generalizing registry with
  | nil => exact h
  | cons flavor flavors ih => exact ih (h.add flavor)

/-! ## Calls -/

inductive Call where
  | add (flavor : Flavor)
  | addStandard
  | activate (name : String)
  | loadDirectory (files : FileSystem) (directory : String)

/-- What a call gives back. -/
inductive Answer where
  | done
  | found (known : Bool)
  | loaded (count : Except LoadError Nat)

def perform (registry : Registry) : Call → Answer × Registry
  | .add flavor => (.done, registry.add flavor)
  | .addStandard => (.done, registry.addStandard)
  | .activate name => (registry.activate name).map .found id
  | .loadDirectory files directory => (registry.loadDirectory files directory).map .loaded id

/-- The flavors that a call adds. -/
def Call.flavors : Call → List Flavor
  | .add flavor => [flavor]
  | .addStandard => Flavor.standard.toOption.toList
  | .activate _ => []
  | .loadDirectory files directory => directoryFlavors files directory

/-- The name that a call has made active. -/
def activated? : Call × Answer → Option String
  | (.activate name, .found true) => some name
  | _ => none

theorem addLoaded_eq (registry : Registry) (loaded : Except LoadError Flavor) :
    registry.addLoaded loaded = loaded.toOption.toList.foldl add registry := by
  cases loaded <;> rfl

/-- To the flavors a call does nothing but add its own. -/
theorem flavors_perform (registry : Registry) (call : Call) :
    (registry.perform call).2.flavors = (call.flavors.foldl add registry).flavors := by
  cases call with
  | add flavor => rfl
  | addStandard => rw [perform, addStandard, addLoaded_eq, Call.flavors]
  | activate name =>
      rw [perform, activate]
      split <;> rfl
  | loadDirectory files directory =>
      rw [perform, loadDirectory_eq]
      rfl

theorem active_perform (registry : Registry) (call : Call) :
    (registry.perform call).2.active =
      (activated? (call, (registry.perform call).1)).or registry.active := by
  cases call with
  | add flavor => rfl
  | addStandard =>
      rw [perform, addStandard, addLoaded_eq]
      exact active_foldl_add _ _
  | activate name =>
      rw [perform, activate]
      split <;> rfl
  | loadDirectory files directory =>
      rw [perform, loadDirectory_eq]
      exact active_foldl_add _ _

theorem isSome_of_activated? {registry : Registry} {call : Call} {name : String}
    (h : activated? (call, (registry.perform call).1) = some name) : (registry.get? name).isSome = true := by
  cases call with
  | activate other =>
      rw [perform, activate] at h
      split at h
      · rename_i hknown
        cases h
        exact hknown
      · cases h
  | _ => cases h

/-! ## Runs -/

/-- The calls so far with their answers, and the registry that they have led to. -/
structure Trace where
  log : List (Call × Answer) := []
  registry : Registry := {}

namespace Trace

def step (trace : Trace) (call : Call) : Trace where
  log := trace.log ++ [(call, (trace.registry.perform call).1)]
  registry := (trace.registry.perform call).2

/-- Makes calls one after the other, from the empty registry on. -/
def run (calls : List Call) : Trace :=
  calls.foldl step {}

/-- All flavors added so far. -/
def added (trace : Trace) : List Flavor :=
  trace.log.flatMap fun entry => entry.1.flavors

/-- All names made active so far. -/
def activated (trace : Trace) : List String :=
  trace.log.filterMap activated?

/-- The registry is what the log says. -/
structure Coherent (trace : Trace) : Prop where
  keyed : trace.registry.Keyed
  stored : ∀ name, trace.registry.get? name = newest trace.added name
  active : trace.registry.active = trace.activated.getLast?
  known : ∀ name ∈ trace.registry.active, (trace.registry.get? name).isSome = true

theorem coherent_empty : Coherent {} where
  keyed := ⟨by simp, List.nodup_nil⟩
  stored := fun _ => rfl
  active := rfl
  known := by simp

theorem get?_step (trace : Trace) (call : Call) (name : String) :
    (trace.step call).registry.get? name = (newest call.flavors name).or (trace.registry.get? name) := by
  rw [← get?_foldl_add, get?, get?, step, flavors_perform]

theorem Coherent.step {trace : Trace} (h : trace.Coherent) (call : Call) : (trace.step call).Coherent where
  keyed := by
    obtain ⟨hnamed, hnodup⟩ := h.keyed.foldl_add call.flavors
    rw [← flavors_perform] at hnamed hnodup
    exact ⟨hnamed, hnodup⟩
  stored := by
    intro name
    rw [get?_step, h.stored, ← newest_append]
    simp [Trace.added, Trace.step]
  active := by
    rw [Trace.step, active_perform, h.active]
    simp [Trace.activated, List.filterMap_append]
  known := by
    intro name hname
    rw [Trace.step, active_perform, Option.mem_def, Option.or_eq_some_iff] at hname
    have hknown : (trace.registry.get? name).isSome = true := by
      rcases hname with hnew | ⟨_, hold⟩
      · exact isSome_of_activated? hnew
      · exact h.known name hold
    rw [get?_step]
    simp [hknown]

theorem coherent_foldl_step {trace : Trace} (h : trace.Coherent) (calls : List Call) :
    (calls.foldl step trace).Coherent := by
  induction calls generalizing trace with
  | nil => exact h
  | cons call calls ih => exact ih (h.step call)

theorem calls_foldl_step (trace : Trace) (calls : List Call) :
    (calls.foldl step trace).log.map Prod.fst = trace.log.map Prod.fst ++ calls := by
  induction calls generalizing trace with
  | nil => exact (List.append_nil _).symm
  | cons call calls ih =>
      rw [List.foldl_cons, ih]
      simp [step]

/-- The active flavor is the newest one of the last name that was made active. -/
theorem Coherent.activeFlavor?_eq {trace : Trace} (h : trace.Coherent) :
    trace.registry.activeFlavor? = trace.activated.getLast?.bind (newest trace.added) := by
  rw [activeFlavor?, h.active, funext h.stored]

end Trace

/-- Every run leaves a coherent registry. Loading a directory adds its flavors in the order of their paths, and counts
them; a directory that cannot be read is an error and adds nothing. A name that is not found changes nothing. -/
theorem run_coherent :
    (∀ calls, (Trace.run calls).log.map Prod.fst = calls ∧ (Trace.run calls).Coherent ∧
      (Trace.run calls).registry.activeFlavor? =
        (Trace.run calls).activated.getLast?.bind (newest (Trace.run calls).added)) ∧
    (∀ (registry : Registry) files directory, registry.loadDirectory files directory =
      (match directoryNames files directory with
        | .ok _ => .ok (directoryFlavors files directory).length
        | .error e => .error (.unreadable directory e),
      (directoryFlavors files directory).foldl add registry)) ∧
    (∀ files directory, (directoryPaths files directory).Pairwise (· ≤ ·) ∧
      (directoryPaths files directory).Perm
        ((((directoryNames files directory).toOption.getD []).filter fun name => IsFlavorFile name).map
          (joinPath directory))) ∧
    ∀ (registry : Registry) name, (registry.activate name).1 = false → (registry.activate name).2 = registry := by
  refine ⟨fun calls => ?_, loadDirectory_eq, fun files directory => ⟨?_, ?_⟩, fun registry name h => ?_⟩
  · have hcoherent := Trace.coherent_foldl_step Trace.coherent_empty calls
    exact ⟨Trace.calls_foldl_step {} calls, hcoherent, hcoherent.activeFlavor?_eq⟩
  · exact pairwise_flavorPaths _ _
  · exact perm_flavorPaths _ _
  · rw [activate] at h ⊢
    split at h
    · cases h
    · rename_i hknown
      rw [if_neg hknown]

/-- A flavor with nothing but a name and a version. -/
def mill (version : Option String) : Flavor where
  name := "mill"
  version
  description := none
  codes := ⟨[]⟩
  letters := []
  modalGroups := []
  executionOrder := []
  parameters := []

/-- Two files with one name, one that is no flavor, and one that is not tried. -/
def millFiles : FileSystem where
  isDirectory := fun path => path = "flavors"
  names := fun _ => .ok ["b.toml", "notes.txt", "a.toml", "c.toml"]
  read := fun path =>
    if path = "flavors/a.toml" then .ok "[flavor]\nname = \"mill\"\nversion = \"1\"\n"
    else if path = "flavors/b.toml" then .ok "[flavor]\nname = \"mill\"\nversion = \"2\"\n"
    else .ok "broken"

theorem directoryFlavors_millFiles :
    directoryFlavors millFiles "flavors" = [mill (some "1"), mill (some "2")] := by
  have hnames : directoryNames millFiles "flavors" = .ok ["b.toml", "notes.txt", "a.toml", "c.toml"] := by
    decide
  have hpaths : directoryPaths millFiles "flavors" = ["flavors/a.toml", "flavors/b.toml", "flavors/c.toml"] := by
    rw [directoryPaths, hnames]
    exact flavorPaths_eq (by decide) (by decide)
  rw [directoryFlavors, hpaths]
  decide +kernel

/-- The files replace the flavor that was active before they were loaded. -/
theorem run_coherent_mill :
    ∃ trace, trace = Trace.run [.add (mill none), .activate "mill", .loadDirectory millFiles "flavors"] ∧
      trace.registry.activeFlavor? = some (mill (some "2")) ∧
      (trace.registry.activate "lathe").1 = false ∧ (trace.registry.activate "lathe").2 = trace.registry := by
  obtain ⟨hrun, _, _, hunknown⟩ := run_coherent
  obtain ⟨_, hcoherent, hactive⟩ := hrun [.add (mill none), .activate "mill", .loadDirectory millFiles "flavors"]
  refine ⟨_, rfl, ?_⟩
  generalize htrace : Trace.run _ = trace at hcoherent hactive ⊢
  have hadded : trace.added = [mill none, mill (some "1"), mill (some "2")] := by
    rw [← htrace]
    change [mill none] ++ ([] ++ (directoryFlavors millFiles "flavors" ++ [])) = _
    rw [directoryFlavors_millFiles]
    rfl
  have hactivated : trace.activated = ["mill"] := by
    rw [← htrace]
    decide +kernel
  have hlathe : (trace.registry.activate "lathe").1 = false := by
    rw [activate, hcoherent.stored, hadded]
    rfl
  rw [hactive, hactivated, hadded]
  exact ⟨by decide, hlathe, hunknown _ _ hlathe⟩

end Registry

end GCode
