import Mathlib.Data.List.Sort
import Vigil.Lib.Utf8
import Vigil.Plan.Layer

/-!
# The layers directory

`load_plan` of `overlord/plan.rs`: the YAML files of the layers directory are read in the order of
their names, and their layers are merged.

The order in which `read_dir` yields the files does not matter, and a directory may be cut at any
name: the plan of the whole is the plan of the files above the cut laid over that of the files below
it, and an error below the cut comes first (`loadPlan_cut`). A directory has a plan unless one of
its YAML files cannot be read or parsed, and the error is about the first of these
(`loadPlan_eq_error_iff`).
-/

namespace Vigil

/-- An entry of the layers directory. -/
structure DirEntry where
  /-- The bytes of the name. -/
  fileName : List UInt8
  /-- What `read_to_string` returns. -/
  content : Option String
  deriving DecidableEq

/-- What `read_dir` yields, in any order, with nothing for an entry that cannot be looked at. No two
entries have the same name. -/
structure DirListing where
  items : List (Option DirEntry)
  nodup : ((items.filterMap id).map DirEntry.fileName).Nodup

/-- The layers directory. -/
inductive LayersDir
  /-- `dir.exists()` is false. -/
  | absent
  /-- `read_dir` fails. -/
  | unreadable
  | listing (l : DirListing)

/-- The errors of `load_plan`. -/
inductive LoadError
  | listing
  | reading (fileName : List UInt8)
  | parsing (fileName : List UInt8)
  deriving DecidableEq

/-- `Path::join` of a directory and the name of one of its files. -/
def joinPath (dir name : List UInt8) : List UInt8 :=
  if dir = [] ∨ dir.getLast? = some 47 then dir ++ name else dir ++ 47 :: name

/-- The context of an error. `debug` is how a path is written with `{:?}`. -/
def LoadError.context (debug : List UInt8 → String) (dir : List UInt8) : LoadError → String
  | .listing => "reading layers dir " ++ debug dir
  | .reading fileName => "reading " ++ debug (joinPath dir fileName)
  | .parsing fileName => "parsing " ++ debug (joinPath dir fileName)

namespace DirEntry

variable (parse : String → Option Layer)

/-- The file is taken for a layer. -/
def isYaml (e : DirEntry) : Bool :=
  ".yaml".toList.isSuffixOf (Utf8.lossy e.fileName) ||
    ".yml".toList.isSuffixOf (Utf8.lossy e.fileName)

/-- The files are sorted by their names. -/
def NameLE (a b : DirEntry) : Prop := a.fileName ≤ b.fileName

instance : DecidableRel NameLE := fun _ _ => inferInstanceAs (Decidable (_ ≤ _))

instance : Std.Total NameLE := ⟨fun _ _ => Std.le_total⟩

instance : IsTrans DirEntry NameLE := ⟨fun _ _ _ => Std.le_trans⟩

/-- The layer of a file. `parse` is `serde_yaml::from_str`. -/
def load (e : DirEntry) : Except LoadError Layer :=
  match e.content with
  | none => .error (.reading e.fileName)
  | some content =>
    match parse content with
    | none => .error (.parsing e.fileName)
    | some layer => .ok layer

end DirEntry

namespace DirListing

/-- The YAML files, as `read_dir` yields them. -/
def files (l : DirListing) : List DirEntry := (l.items.filterMap id).filter DirEntry.isYaml

/-- The YAML files in the order of their names. -/
def sorted (l : DirListing) : List DirEntry := l.files.insertionSort DirEntry.NameLE

/-- There is one file of a name. -/
theorem eq_of_fileName_eq {l : DirListing} {a b : DirEntry} (ha : a ∈ l.files) (hb : b ∈ l.files)
    (h : a.fileName = b.fileName) : a = b :=
  List.inj_on_of_nodup_map l.nodup (List.mem_of_mem_filter ha) (List.mem_of_mem_filter hb) h

/-- The files of a directory are sorted in one way only. -/
theorem sorted_eq {l : DirListing} {fs : List DirEntry} (hperm : l.files.Perm fs)
    (hfs : fs.Pairwise DirEntry.NameLE) : l.sorted = fs := by
  have hsorted : l.sorted.Perm l.files := List.perm_insertionSort _ _
  refine List.Perm.eq_of_pairwise (fun a b ha hb hab hba => ?_)
    (List.pairwise_insertionSort DirEntry.NameLE l.files) hfs (hsorted.trans hperm)
  exact eq_of_fileName_eq (hsorted.mem_iff.mp ha) (hperm.mem_iff.mpr hb) (Std.le_antisymm hab hba)

end DirListing

/-- `load_plan`. -/
def loadPlan (parse : String → Option Layer) : LayersDir → Except LoadError MergedPlan
  | .absent => .ok {}
  | .unreadable => .error .listing
  | .listing l => (l.sorted.mapM (DirEntry.load parse)).map MergedPlan.fromLayers

variable {parse : String → Option Layer}

/-- Two blocks of files load what each of them loads, the second one laid over the first. -/
theorem map_fromLayers_mapM_append (xs ys : List DirEntry) :
    ((xs ++ ys).mapM (DirEntry.load parse)).map MergedPlan.fromLayers = do
      let p ← (xs.mapM (DirEntry.load parse)).map MergedPlan.fromLayers
      let q ← (ys.mapM (DirEntry.load parse)).map MergedPlan.fromLayers
      return p.overlay q := by
  rw [List.mapM_append]
  cases xs.mapM (DirEntry.load parse) with
  | error e => rfl
  | ok as =>
    cases ys.mapM (DirEntry.load parse) with
    | error e => rfl
    | ok bs =>
      show Except.ok (MergedPlan.fromLayers (as ++ bs)) = Except.ok _
      rw [MergedPlan.fromLayers, List.foldl_append, MergedPlan.foldl_addLayer]
      rfl

/-- A directory may be cut at any name, whatever the order in which `read_dir` yields its files and
those of its two parts: its plan is that of the files above the cut laid over that of the files
below it, and an error below the cut comes first. -/
theorem loadPlan_cut {l below above : DirListing}
    (hperm : l.items.Perm (below.items ++ above.items))
    (hcut : ∀ a ∈ below.files, ∀ b ∈ above.files, a.fileName < b.fileName) :
    loadPlan parse (.listing l) = do
      let p ← loadPlan parse (.listing below)
      let q ← loadPlan parse (.listing above)
      return p.overlay q := by
  have hfiles : l.files.Perm (below.sorted ++ above.sorted) := by
    refine ((hperm.filterMap id).filter DirEntry.isYaml).trans ?_
    rw [List.filterMap_append, List.filter_append]
    exact (List.perm_insertionSort _ _).symm.append (List.perm_insertionSort _ _).symm
  have hpairwise : (below.sorted ++ above.sorted).Pairwise DirEntry.NameLE := by
    refine List.pairwise_append.mpr ⟨List.pairwise_insertionSort DirEntry.NameLE _,
      List.pairwise_insertionSort DirEntry.NameLE _, fun a ha b hb => Std.le_of_lt ?_⟩
    exact hcut a ((List.perm_insertionSort _ _).mem_iff.mp ha) b
      ((List.perm_insertionSort _ _).mem_iff.mp hb)
  rw [loadPlan, DirListing.sorted_eq hfiles hpairwise]
  exact map_fromLayers_mapM_append _ _

/-- `10.yaml`. -/
def firstFile : DirEntry := ⟨[49, 48, 46, 121, 97, 109, 108], some "30s"⟩

/-- `20.yml`. -/
def secondFile : DirEntry := ⟨[50, 48, 46, 121, 109, 108], some "60s"⟩

/-- `README`, which is no layer. -/
def readmeFile : DirEntry := ⟨[82, 69, 65, 68, 77, 69], none⟩

/-- A directory of these files and one entry that cannot be looked at. -/
def sampleListing : DirListing where
  items := [some secondFile, none, some readmeFile, some firstFile]
  nodup := by decide

/-- A parser for which a file's content is the queue time of its alerts. -/
def sampleParse (content : String) : Option Layer :=
  some { alerts := { maxQueueTime := some content } }

/-- The directory cut between its two layers. -/
theorem loadPlan_cut_sample :
    (loadPlan sampleParse (.listing sampleListing)).map MergedPlan.alertMaxQueueTime =
        .ok (some "60s") ∧
      loadPlan sampleParse (.listing sampleListing) = do
        let p ← loadPlan sampleParse (.listing ⟨[some firstFile], by decide⟩)
        let q ← loadPlan sampleParse
          (.listing ⟨[none, some readmeFile, some secondFile], by decide⟩)
        return p.overlay q :=
  ⟨rfl, loadPlan_cut (by decide) (by decide)⟩

/-- A traversal ends with the error of the first element that has one. -/
theorem mapM_eq_error_iff {α β ε : Type} {f : α → Except ε β} {xs : List α} {e : ε} :
    xs.mapM f = .error e ↔ ∃ before x after, xs = before ++ x :: after ∧ f x = .error e ∧
      ∀ y ∈ before, ∃ b, f y = .ok b := by
  induction xs with
  | nil =>
    rw [List.mapM_nil]
    constructor
    · intro h
      cases h
    · rintro ⟨before, x, after, h, -⟩
      simp at h
  | cons x xs ih =>
    rw [List.mapM_cons]
    constructor
    · cases hx : f x with
      | error e' =>
        intro h
        obtain rfl : e' = e := Except.error.inj h
        exact ⟨[], x, xs, rfl, hx, by simp⟩
      | ok b =>
        intro h
        have hxs : xs.mapM f = .error e := by
          cases hm : xs.mapM f with
          | error e' => rw [hm] at h; exact h
          | ok bs => rw [hm] at h; cases h
        obtain ⟨before, y, after, rfl, hy, hbefore⟩ := ih.mp hxs
        exact ⟨x :: before, y, after, rfl, hy, List.forall_mem_cons.mpr ⟨⟨b, hx⟩, hbefore⟩⟩
    · rintro ⟨before, y, after, heq, hy, hbefore⟩
      cases before with
      | nil =>
        obtain ⟨rfl, rfl⟩ := List.cons.inj heq
        rw [hy]
        rfl
      | cons z before =>
        obtain ⟨rfl, rfl⟩ := List.cons.inj heq
        obtain ⟨⟨b, hx⟩, hbefore⟩ := List.forall_mem_cons.mp hbefore
        rw [hx, ih.mpr ⟨before, y, after, rfl, hy, hbefore⟩]
        rfl

/-- A directory has no plan exactly if one of its YAML files cannot be read or parsed, and the error
is about the first of these in the order of the names, whatever the order in which `read_dir` yields
them. -/
theorem loadPlan_eq_error_iff (l : DirListing) (e : LoadError) :
    loadPlan parse (.listing l) = .error e ↔ ∃ f ∈ l.files, f.load parse = .error e ∧
      ∀ g ∈ l.files, g.fileName < f.fileName → ∃ layer, g.load parse = .ok layer := by
  have hmem (f : DirEntry) : f ∈ l.sorted ↔ f ∈ l.files := (List.perm_insertionSort _ _).mem_iff
  have hpairwise : l.sorted.Pairwise DirEntry.NameLE := List.pairwise_insertionSort _ _
  have hnodup : l.sorted.Nodup :=
    (List.perm_insertionSort _ _).nodup_iff.mpr ((l.nodup.of_map _).filter _)
  have hload : loadPlan parse (.listing l) = .error e ↔
      l.sorted.mapM (DirEntry.load parse) = .error e := by
    rw [loadPlan]
    cases l.sorted.mapM (DirEntry.load parse) <;> simp [Except.map]
  rw [hload, mapM_eq_error_iff]
  constructor
  · rintro ⟨before, f, after, heq, hf, hbefore⟩
    rw [heq] at hmem hpairwise
    refine ⟨f, (hmem f).mp (by simp), hf, fun g hg hlt => ?_⟩
    -- A file with a smaller name is before the first that fails.
    rcases List.mem_append.mp ((hmem g).mpr hg) with hg | hg
    · exact hbefore g hg
    · have hle : f.fileName ≤ g.fileName := by
        rcases List.mem_cons.mp hg with rfl | hg
        · exact Std.le_refl _
        · exact List.rel_of_pairwise_cons (List.pairwise_append.mp hpairwise).2.1 hg
      exact absurd hlt (Std.not_lt.mpr hle)
  · rintro ⟨f, hmemf, hf, hbelow⟩
    obtain ⟨before, after, heq⟩ := List.append_of_mem ((hmem f).mpr hmemf)
    refine ⟨before, f, after, heq, hf, fun g hg => ?_⟩
    rw [heq] at hmem hpairwise hnodup
    have hgf : g ∈ l.files := (hmem g).mp (List.mem_append_left _ hg)
    have hle : g.fileName ≤ f.fileName :=
      (List.pairwise_append.mp hpairwise).2.2 g hg f List.mem_cons_self
    refine hbelow g hgf (Std.not_le.mp fun hge => ?_)
    obtain rfl := DirListing.eq_of_fileName_eq hgf hmemf (Std.le_antisymm hle hge)
    exact (List.nodup_append.mp hnodup).2.2 g hg g List.mem_cons_self rfl

end Vigil
