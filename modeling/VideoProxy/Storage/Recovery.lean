import VideoProxy.Storage.Restart

/-!
# Start-up recovery of a cache directory

At start-up `enumerate` goes through the second-level directories of the cache,
in which anything may have been left.  Here files have their full paths, so that
a sidecar can lie in any directory, under any hash, and claim any key.  What is
in a file is only looked at through the parser of sidecars.

Files are removed while the directories are read.  Each removal is at the path of
the sidecar that is looked at, or next to it, so that what is found out about one
sidecar does not depend on those before it.
-/

namespace VideoProxy
namespace CacheRoot

/-- A file in a second-level directory. -/
structure CachePath where
  dir1 : Text
  dir2 : Text
  name : Text
  deriving DecidableEq

/-- The name of a data file: a hash in hexadecimal digits. -/
def IsHash (name : Text) : Prop :=
  name.length = 64 ∧ name.all fun char =>
      char.isDigit || ('a' ≤ char && char ≤ 'f') || ('A' ≤ char && char ≤ 'F')

instance (name : Text) : Decidable (IsHash name) :=
  inferInstanceAs (Decidable (_ ∧ _))

/-- The hash of keys and the parser of sidecars. -/
structure Codec where
  sha256Hex : Key → Text
  fromSlice : Bytes → Option RangeMetadata
  isHash : ∀ key, IsHash (sha256Hex key)

/-! ## The code -/

/-- `Path::file_stem`: the name up to its last dot, unless it has none or only one
at its start. -/
def fileStem (name : Text) : Text :=
  match name.reverse.dropWhile (· ≠ '.') with
  | '.' :: stem => if stem = [] then name else stem.reverse
  | _ => name

/-- `Path::with_extension`, on the name. -/
def withExtension (name extension : Text) : Text :=
  if extension = [] then fileStem name else fileStem name ++ '.' :: extension

/-- The end of the name of a sidecar. -/
def sidecarEnd : Text := ".ranges.json".toList

/-- The end of the name of a temporary sidecar. -/
def temporaryEnd : Text := ".ranges.json.tmp".toList

section Scanning

variable (codec : Codec)

/-- `get_file_path`. -/
def getFilePath (key : Key) : CachePath :=
  let hash := codec.sha256Hex key
  { dir1 := hash.take 2, dir2 := (hash.drop 2).take 2, name := hash }

/-- `get_metadata_path`. -/
def getMetadataPath (key : Key) : CachePath :=
  { getFilePath codec key with
    name := withExtension (getFilePath codec key).name "ranges.json".toList }

/-- The files, and the entries found so far. -/
structure Scan where
  files : AList fun _ : CachePath => Bytes
  entries : List (Key × Nat)

/-- `remove_cache_pair`. -/
def removeCachePair (path : CachePath) (files : AList fun _ : CachePath => Bytes) :
    AList fun _ : CachePath => Bytes :=
  let dataPath := { path with name := withExtension (withExtension path.name []) [] }
  (files.erase path).erase dataPath

/-- What `enumerate` does with one file. -/
def visit (scan : Scan) (path : CachePath) : Scan :=
  if temporaryEnd <:+ path.name then
    { scan with files := scan.files.erase path }
  else if ¬sidecarEnd <:+ path.name then scan
  else
    match (scan.files.lookup path).bind codec.fromSlice with
    | none => { scan with files := removeCachePair path scan.files }
    | some metadata =>
      match metadata.key with
      | none => { scan with files := removeCachePair path scan.files }
      | some key =>
        let dataPath := getFilePath codec key
        let fileSize := (scan.files.lookup dataPath).map List.length
        let validPath := path = getMetadataPath codec key
        let valid := fileSize.any fun size =>
          decide validPath && metadataIsValid metadata key (some size)
        if valid then
          { scan with entries := scan.entries ++ [(key, fileSize.getD 0)] }
        else
          let files := removeCachePair path scan.files
          { scan with
            files := if validPath then files.erase dataPath else files }

/-- `DiskStorage::enumerate`, over the files as they are listed. -/
def enumerate (listing : List CachePath) (files : AList fun _ : CachePath => Bytes) : Scan :=
  listing.foldl (visit codec) { files, entries := [] }

end Scanning

/-! ## Names -/

variable {name : Text}

theorem not_mem_of_isHash (isHash : IsHash name) : '.' ∉ name := by
  intro member
  have digit := List.all_eq_true.mp isHash.2 '.' member
  exact absurd digit (by decide)

theorem ne_nil_of_isHash (isHash : IsHash name) : name ≠ [] := by
  rintro rfl
  cases isHash.1

/-- The stem ends at the last dot. -/
theorem fileStem_append {stem extension : Text} (nonempty : stem ≠ []) (plain : '.' ∉ extension) :
    fileStem (stem ++ '.' :: extension) = stem := by
  have cut : (stem ++ '.' :: extension).reverse.dropWhile (· ≠ '.') = '.' :: stem.reverse := by
    rw [List.reverse_append, List.reverse_cons, List.append_assoc, List.dropWhile_append_of_pos]
    · rfl
    · intro char member
      rw [List.mem_reverse] at member
      exact decide_eq_true fun same => plain (same ▸ member)
  unfold fileStem
  rw [cut]
  simp only [List.reverse_eq_nil_iff, if_neg nonempty, List.reverse_reverse]

theorem fileStem_of_plain (plain : '.' ∉ name) : fileStem name = name := by
  have cut : name.reverse.dropWhile (· ≠ '.') = [] := by
    rw [List.dropWhile_eq_nil_iff]
    intro char member
    rw [List.mem_reverse] at member
    exact decide_eq_true fun same => plain (same ▸ member)
  unfold fileStem
  rw [cut]

/-- The sidecar next to a data file. -/
def CachePath.sidecar (path : CachePath) : CachePath :=
  { path with name := path.name ++ sidecarEnd }

theorem CachePath.sidecar_injective : Function.Injective CachePath.sidecar := by
  intro left right same
  cases left
  cases right
  simp only [sidecar, CachePath.mk.injEq, List.append_cancel_right_eq] at same
  simp only [same]

theorem getMetadataPath_eq (codec : Codec) (key : Key) :
    getMetadataPath codec key = (getFilePath codec key).sidecar := by
  have plain := not_mem_of_isHash (codec.isHash key)
  unfold getMetadataPath CachePath.sidecar withExtension
  rw [if_neg (by decide), getFilePath, fileStem_of_plain plain]
  rfl

/-- The data file that `remove_cache_pair` takes with a sidecar. -/
def CachePath.data (path : CachePath) : CachePath :=
  { path with name := withExtension (withExtension path.name []) [] }

/-- The path of the data is found from its sidecar. -/
theorem CachePath.data_sidecar {path : CachePath} (isHash : IsHash path.name) :
    path.sidecar.data = path := by
  have first : withExtension path.sidecar.name [] = path.name ++ ".ranges".toList := by
    have split : path.name ++ sidecarEnd =
        (path.name ++ ".ranges".toList) ++ '.' :: "json".toList := by
      rw [List.append_assoc]
      rfl
    change fileStem (path.name ++ sidecarEnd) = _
    rw [split]
    exact fileStem_append (by simp) (by decide)
  have second : withExtension (path.name ++ ".ranges".toList) [] = path.name :=
    fileStem_append (ne_nil_of_isHash isHash) (by decide)
  unfold data
  rw [first, second]
  rfl

theorem not_sidecarEnd_of_isHash (isHash : IsHash name) :
    ¬sidecarEnd <:+ name := fun ends =>
  not_mem_of_isHash isHash (ends.subset (by decide))

theorem not_temporaryEnd_of_isHash (isHash : IsHash name) :
    ¬temporaryEnd <:+ name := fun ends =>
  not_mem_of_isHash isHash (ends.subset (by decide))

theorem ne_sidecar_of_isHash {path : CachePath} (isHash : IsHash path.name) (other : CachePath) :
    path ≠ other.sidecar := by
  rintro rfl
  exact not_sidecarEnd_of_isHash isHash (List.suffix_append _ _)

theorem not_temporaryEnd_append (stem : Text) : ¬temporaryEnd <:+ stem ++ sidecarEnd := by
  rintro ⟨front, same⟩
  have last := congrArg List.getLast? same
  have first : temporaryEnd.getLast? = some 'p' := by decide
  have second : sidecarEnd.getLast? = some 'n' := by decide
  rw [List.getLast?_append, List.getLast?_append, first, second] at last
  exact absurd (Option.some.inj last) (by decide)

/-- The files that the directories may have. -/
inductive Named : CachePath → Prop
  | data {path : CachePath} (isHash : IsHash path.name) : Named path
  | sidecar {path : CachePath} (isHash : IsHash path.name) : Named path.sidecar
  | temporary {path : CachePath} (ends : temporaryEnd <:+ path.name) : Named path

/-! ## One file -/

section Visiting

variable {codec : Codec}

/-- The entry of a data file: the sidecar next to it is the one of the key that it
claims, and passes the check. -/
def keptEntry (codec : Codec) (files : AList fun _ : CachePath => Bytes)
    (path : CachePath) : Option (Key × Nat) :=
  match (files.lookup path.sidecar).bind codec.fromSlice with
  | none => none
  | some metadata =>
    match metadata.key, files.lookup path with
    | some key, some data =>
      if getFilePath codec key = path ∧ metadataIsValid metadata key (some data.length) then
        some (key, data.length)
      else none
    | _, _ => none

/-- The entry that is found at a listed file. -/
def found (codec : Codec) (files : AList fun _ : CachePath => Bytes)
    (path : CachePath) : Option (Key × Nat) :=
  if ¬temporaryEnd <:+ path.name ∧ sidecarEnd <:+ path.name then
    keptEntry codec files path.data
  else none

/-- The files that are removed with a listed one. -/
def Doomed (codec : Codec) (files : AList fun _ : CachePath => Bytes)
    (path other : CachePath) : Prop :=
  temporaryEnd <:+ path.name ∧ other = path ∨
    (¬temporaryEnd <:+ path.name ∧ sidecarEnd <:+ path.name ∧
      found codec files path = none) ∧ (other = path ∨ other = path.data)

/-- Exactly these files are gone. -/
structure Erased (gone : CachePath → Prop)
    (before after : AList fun _ : CachePath => Bytes) : Prop where
  removed : ∀ path, gone path → after.lookup path = none
  kept : ∀ path, ¬gone path → after.lookup path = before.lookup path

theorem erased_erase (path : CachePath) (files : AList fun _ : CachePath => Bytes) :
    Erased (· = path) files (files.erase path) where
  removed := by
    rintro _ rfl
    exact AList.lookup_erase _ _
  kept _ different := AList.lookup_erase_ne different

/-- Files are erased one after the other. -/
theorem Erased.trans {first second : CachePath → Prop}
    {before middle after : AList fun _ : CachePath => Bytes} (left : Erased first before middle)
    (right : Erased second middle after) :
    Erased (fun path => first path ∨ second path) before after where
  removed path gone := by
    by_cases later : second path
    · exact right.removed path later
    · rw [right.kept path later]
      exact left.removed path (gone.resolve_right later)
  kept path stays := by
    rw [not_or] at stays
    rw [right.kept path stays.2, left.kept path stays.1]

theorem Erased.congr {first second : CachePath → Prop}
    {before after : AList fun _ : CachePath => Bytes} (erased : Erased first before after)
    (same : ∀ path, second path ↔ first path) :
    Erased second before after :=
  ⟨fun path gone => erased.removed path ((same path).mp gone),
    fun path stays => erased.kept path (stays ∘ (same path).mpr)⟩

theorem removeCachePair_erased (path : CachePath) (files : AList fun _ : CachePath => Bytes) :
    Erased (fun other => other = path ∨ other = path.data) files (removeCachePair path files) :=
  (erased_erase path files).trans (erased_erase path.data _)

/-- What looking at one file does. -/
structure Visited (codec : Codec) (path : CachePath) (before after : Scan) : Prop where
  entries_eq : after.entries = before.entries ++ (found codec before.files path).toList
  erased : Erased (Doomed codec before.files path) before.files after.files

variable {key : Key} {path : CachePath} {files : AList fun _ : CachePath => Bytes} {size : Nat}

theorem sidecar_eq_iff :
    path.sidecar = getMetadataPath codec key ↔ getFilePath codec key = path := by
  rw [getMetadataPath_eq]
  exact CachePath.sidecar_injective.eq_iff.trans eq_comm

/-- A sidecar is kept with its data file, or removed with it. -/
theorem visit_sidecar (isHash : IsHash path.name) (scan : Scan) :
    Visited codec path.sidecar scan (visit codec scan path.sidecar) := by
  have lasting : ¬temporaryEnd <:+ path.sidecar.name :=
    not_temporaryEnd_append path.name
  have ends : sidecarEnd <:+ path.sidecar.name := List.suffix_append _ _
  have found_eq : found codec scan.files path.sidecar = keptEntry codec scan.files path := by
    rw [found, if_pos ⟨lasting, ends⟩, CachePath.data_sidecar isHash]
  have removal {files : AList fun _ : CachePath => Bytes}
      (removed : keptEntry codec scan.files path = none)
      (erased : Erased (fun other => other = path.sidecar ∨ other = path.sidecar.data)
        scan.files files) :
      Visited codec path.sidecar scan { scan with files } := by
    rw [← found_eq] at removed
    refine ⟨by rw [removed]; exact (List.append_nil _).symm, ?_⟩
    refine erased.congr fun other => ?_
    simp [Doomed, lasting, ends, removed]
  have pair := removeCachePair_erased path.sidecar scan.files
  unfold visit
  rw [if_neg lasting, if_neg (not_not.mpr ends)]
  cases parsed : (scan.files.lookup path.sidecar).bind codec.fromSlice with
  | none =>
    exact removal (by simp only [keptEntry, parsed]) pair
  | some metadata =>
    cases owner : metadata.key with
    | none =>
      simp only [owner]
      exact removal (by simp only [keptEntry, parsed, owner]) pair
    | some key =>
      simp only [owner, sidecar_eq_iff]
      by_cases own : getFilePath codec key = path
      · subst own
        -- the data file is removed a second time
        have again : Erased (fun other => other = (getFilePath codec key).sidecar ∨
            other = (getFilePath codec key).sidecar.data) scan.files
            ((removeCachePair (getFilePath codec key).sidecar scan.files).erase
              (getFilePath codec key)) := by
          refine (pair.trans (erased_erase (getFilePath codec key) _)).congr fun other => ?_
          rw [CachePath.data_sidecar isHash, or_assoc, or_self]
        simp only [if_true, decide_true, Bool.true_and]
        cases data_eq : scan.files.lookup (getFilePath codec key) with
        | none =>
          exact removal (by simp only [keptEntry, parsed, owner, data_eq]) again
        | some data =>
          simp only [Option.map_some, Option.any_some, Option.getD_some]
          cases valid : metadataIsValid metadata key (some data.length) with
          | false =>
            refine removal ?_ again
            simp only [keptEntry, parsed, owner, data_eq, valid]
            rfl
          | true =>
            have entry_eq : found codec scan.files (getFilePath codec key).sidecar =
                  some (key, data.length) := by
              simp only [found_eq, keptEntry, parsed, owner, data_eq, valid]
              rfl
            refine ⟨by rw [entry_eq]; rfl, fun other doomed => ?_, fun _ _ => rfl⟩
            simp [Doomed, lasting, entry_eq] at doomed
      · have refused (size : Option Nat) : (size.any fun size =>
            decide (getFilePath codec key = path) &&
              metadataIsValid metadata key (some size)) = false := by
          simp [own]
        rw [refused]
        simp only [Bool.false_eq_true, if_false, own]
        refine removal ?_ pair
        simp only [keptEntry, parsed, owner]
        cases scan.files.lookup path with
        | none => rfl
        | some data => exact if_neg fun valid => own valid.1

/-- Every visit does what the sidecar calls for. -/
theorem visit_visited (named : Named path) (scan : Scan) :
    Visited codec path scan (visit codec scan path) := by
  cases named with
  | sidecar isHash => exact visit_sidecar isHash scan
  | data isHash =>
    have lasting := not_temporaryEnd_of_isHash isHash
    have plain := not_sidecarEnd_of_isHash isHash
    unfold visit
    rw [if_neg lasting, if_pos plain]
    refine ⟨?_, fun other doomed => ?_, fun _ _ => rfl⟩
    · rw [found, if_neg fun sidecar => plain sidecar.2]
      exact (List.append_nil _).symm
    · simp [Doomed, lasting, plain] at doomed
  | temporary ends =>
    unfold visit
    rw [if_pos ends]
    refine ⟨?_, (erased_erase path scan.files).congr fun other => ?_⟩
    · rw [found, if_neg fun sidecar => sidecar.1 ends]
      exact (List.append_nil _).symm
    · simp [Doomed, ends]

/-! ## One file and another -/

theorem not_doomed {data : CachePath}
    (named : Named path) (isHash : IsHash data.name) (different : path ≠ data.sidecar) :
    ¬Doomed codec files path data.sidecar ∧ ¬Doomed codec files path data := by
  cases named with
  | data isHash' =>
    have plain := not_sidecarEnd_of_isHash isHash'
    have lasting := not_temporaryEnd_of_isHash isHash'
    simp [Doomed, plain, lasting]
  | temporary ends =>
    have foreign : data ≠ path := by
      rintro rfl
      exact not_temporaryEnd_of_isHash isHash ends
    simp [Doomed, ends, different.symm, foreign]
  | @sidecar owner isHash' =>
    have lasting : ¬temporaryEnd <:+ owner.sidecar.name :=
      not_temporaryEnd_append owner.name
    have other : data ≠ owner := fun same => different (same ▸ rfl)
    simp [Doomed, lasting, CachePath.data_sidecar isHash', different.symm, other,
      (ne_sidecar_of_isHash isHash' data).symm, ne_sidecar_of_isHash isHash owner]

/-- A visit does not change what a later one finds. -/
theorem Visited.found_eq {later : CachePath} {before after : Scan}
    (visited : Visited codec path before after) (named : Named path) (namedLater : Named later)
    (different : path ≠ later) :
    found codec after.files later = found codec before.files later := by
  cases namedLater with
  | data isHash =>
    have plain := not_sidecarEnd_of_isHash isHash
    rw [found, found, if_neg fun sidecar => plain sidecar.2, if_neg fun sidecar => plain sidecar.2]
  | temporary ends =>
    rw [found, found, if_neg fun sidecar => sidecar.1 ends, if_neg fun sidecar => sidecar.1 ends]
  | @sidecar data isHash =>
    obtain ⟨sidecarKept, dataKept⟩ :=
      @not_doomed codec path before.files data named isHash different
    unfold found
    rw [CachePath.data_sidecar isHash, keptEntry, keptEntry,
      visited.erased.kept _ sidecarKept, visited.erased.kept _ dataKept]

/-! ## All files -/

/-- What a scan finds and erases depends on the start alone. -/
theorem foldl_visit {listing : List CachePath} (nodup : listing.Nodup)
    (named : ∀ path ∈ listing, Named path) (scan : Scan) :
    (listing.foldl (visit codec) scan).entries =
        scan.entries ++ listing.filterMap (found codec scan.files) ∧
      Erased (fun other => ∃ path ∈ listing, Doomed codec scan.files path other)
        scan.files (listing.foldl (visit codec) scan).files := by
  induction listing generalizing scan with
  | nil =>
    refine ⟨(List.append_nil _).symm, fun other gone => ?_, fun _ _ => rfl⟩
    obtain ⟨path, member, -⟩ := gone
    cases member
  | cons path listing inductionHypothesis =>
    obtain ⟨fresh, nodupRest⟩ := List.nodup_cons.mp nodup
    have namedHead := named path List.mem_cons_self
    have namedRest : ∀ later ∈ listing, Named later :=
      fun later member => named later (List.mem_cons_of_mem _ member)
    have visited := @visit_visited codec path namedHead scan
    have same : ∀ later ∈ listing, found codec (visit codec scan path).files later =
          found codec scan.files later := fun later member =>
      visited.found_eq namedHead (namedRest later member) fun equal => fresh (equal ▸ member)
    obtain ⟨entries_eq, erased⟩ :=
      inductionHypothesis nodupRest namedRest (visit codec scan path)
    rw [List.foldl_cons]
    refine ⟨?_, (visited.erased.trans erased).congr fun other => ?_⟩
    · rw [entries_eq, visited.entries_eq, List.append_assoc, List.filterMap_congr same]
      rw [List.filterMap_eq_flatMap_toList, List.filterMap_eq_flatMap_toList, List.flatMap_cons]
    · rw [List.exists_mem_cons_iff]
      refine or_congr_right (exists_congr fun later => and_congr_right fun member => ?_)
      unfold Doomed
      rw [same later member]

/-- The sidecar of the key lies at the key's own path and passes the check against
a data file of this size. -/
def Recoverable (codec : Codec) (files : AList fun _ : CachePath => Bytes) (key : Key)
    (size : Nat) : Prop :=
  ∃ sidecar metadata data, files.lookup (getMetadataPath codec key) = some sidecar ∧
    codec.fromSlice sidecar = some metadata ∧
    files.lookup (getFilePath codec key) = some data ∧
    metadataIsValid metadata key (some data.length) = true ∧
    data.length = size

/-- The scan keeps exactly the recoverable keys, at their own paths. -/
theorem keptEntry_eq_some_iff :
    keptEntry codec files path = some (key, size) ↔
      getFilePath codec key = path ∧ Recoverable codec files key size := by
  unfold Recoverable
  constructor
  · intro kept
    unfold keptEntry at kept
    split at kept
    · cases kept
    · rename_i metadata parsed
      split at kept
      · rename_i owner data owner_eq data_eq
        split at kept
        · rename_i valid
          cases kept
          obtain ⟨sidecar, sidecar_eq, parses⟩ := Option.bind_eq_some_iff.mp parsed
          obtain ⟨rfl, valid⟩ := valid
          rw [getMetadataPath_eq]
          exact ⟨rfl, sidecar, metadata, data, sidecar_eq, parses, data_eq, valid, rfl⟩
        · cases kept
      · cases kept
  · rintro ⟨rfl, sidecar, metadata, data, sidecar_eq, parses, data_eq, valid, rfl⟩
    rw [getMetadataPath_eq] at sidecar_eq
    have owner := key_eq_of_metadataIsValid valid
    simp only [keptEntry, sidecar_eq, Option.bind_some, parses, owner, data_eq, valid]
    rfl

theorem found_eq_some_iff (named : Named path) :
    found codec files path = some (key, size) ↔
      path = getMetadataPath codec key ∧ Recoverable codec files key size := by
  have own (plain : ¬(¬temporaryEnd <:+ path.name ∧ sidecarEnd <:+ path.name)) :
      path ≠ getMetadataPath codec key := by
    rintro rfl
    rw [getMetadataPath_eq] at plain
    exact plain ⟨not_temporaryEnd_append _, List.suffix_append _ _⟩
  unfold found
  split
  · rename_i sidecar
    cases named with
    | data isHash => exact absurd sidecar.2 (not_sidecarEnd_of_isHash isHash)
    | temporary ends => exact absurd ends sidecar.1
    | sidecar isHash =>
      rw [CachePath.data_sidecar isHash, keptEntry_eq_some_iff, sidecar_eq_iff]
  · rename_i plain
    exact iff_of_false (Option.some_ne_none _).symm fun found => own plain found.1

theorem not_doomed_of_recoverable
    (named : Named path) (recoverable : Recoverable codec files key size) :
    ¬Doomed codec files path (getFilePath codec key).sidecar ∧
      ¬Doomed codec files path (getFilePath codec key) := by
  by_cases own : path = (getFilePath codec key).sidecar
  · have isFound : found codec files path = some (key, size) :=
      (found_eq_some_iff named).mpr ⟨own.trans (getMetadataPath_eq codec key).symm, recoverable⟩
    have lasting : ¬temporaryEnd <:+ path.name := by
      rw [own]
      exact not_temporaryEnd_append _
    simp [Doomed, lasting, isFound]
  · exact not_doomed named (codec.isHash key) own

section Listing

variable {files : AList fun _ : CachePath => Bytes} {listing : List CachePath}
  (named : ∀ path ∈ files, Named path) (order : listing.Perm files.keys)
include named order

theorem enumerate_eq :
    (enumerate codec listing files).entries = listing.filterMap (found codec files) ∧
      Erased (fun other => ∃ path ∈ listing, Doomed codec files path other) files
        (enumerate codec listing files).files :=
  foldl_visit (order.nodup_iff.mpr files.keys_nodup)
    (fun path member => named path (order.mem_iff.mp member)) ⟨files, []⟩

/-- Just the recoverable pairs are listed. -/
theorem mem_enumerate_iff (key : Key) (size : Nat) :
    (key, size) ∈ (enumerate codec listing files).entries ↔ Recoverable codec files key size := by
  rw [(enumerate_eq named order).1, List.mem_filterMap]
  constructor
  · rintro ⟨path, member, found⟩
    exact ((found_eq_some_iff (named path (order.mem_iff.mp member))).mp found).2
  · intro recoverable
    have present : getMetadataPath codec key ∈ files := by
      obtain ⟨sidecar, _, _, sidecar_eq, _⟩ := recoverable
      exact AList.lookup_isSome.mp (Option.isSome_of_eq_some sidecar_eq)
    exact ⟨_, order.mem_iff.mpr present,
      (found_eq_some_iff (named _ present)).mpr ⟨rfl, recoverable⟩⟩

/-- No key is listed twice. -/
theorem enumerate_nodup : ((enumerate codec listing files).entries.map Prod.fst).Nodup := by
  have nodup : listing.Nodup := order.nodup_iff.mpr files.keys_nodup
  have own {path : CachePath} {entry : Key × Nat} (member : path ∈ listing)
      (found : found codec files path = some entry) :
      path = getMetadataPath codec entry.1 :=
    ((found_eq_some_iff (named path (order.mem_iff.mp member))).mp found).1
  rw [(enumerate_eq named order).1, List.Nodup, List.pairwise_map, List.pairwise_filterMap]
  refine nodup.imp_of_mem fun firstListed secondListed different first isFirst second
    isSecond same => different ?_
  rw [own firstListed isFirst, own secondListed isSecond, same]

/-- A refused sidecar is erased with its data. -/
theorem enumerate_dropped {path : CachePath} (isHash : IsHash path.name)
    (present : path.sidecar ∈ files) (refused : found codec files path.sidecar = none) :
    (enumerate codec listing files).files.lookup path.sidecar = none ∧
      (enumerate codec listing files).files.lookup path = none := by
  obtain ⟨-, erased⟩ := @enumerate_eq codec files listing named order
  have doomed {other : CachePath} (isPair : other = path.sidecar ∨ other = path.sidecar.data) :
      ∃ listed ∈ listing, Doomed codec files listed other :=
    ⟨path.sidecar, order.mem_iff.mpr present, .inr ⟨⟨not_temporaryEnd_append _,
      List.suffix_append _ _, refused⟩, isPair⟩⟩
  exact ⟨erased.removed _ (doomed (.inl rfl)),
    erased.removed _ (doomed (.inr (CachePath.data_sidecar isHash).symm))⟩

/-- A recoverable pair is kept. -/
theorem enumerate_kept {key : Key} {size : Nat} (recoverable : Recoverable codec files key size) :
    (enumerate codec listing files).files.lookup (getMetadataPath codec key) =
        files.lookup (getMetadataPath codec key) ∧
      (enumerate codec listing files).files.lookup (getFilePath codec key) =
        files.lookup (getFilePath codec key) := by
  obtain ⟨-, erased⟩ := @enumerate_eq codec files listing named order
  have kept (listed : CachePath) (inside : listed ∈ listing) :=
    not_doomed_of_recoverable (named listed (order.mem_iff.mp inside)) recoverable
  rw [getMetadataPath_eq]
  exact ⟨erased.kept _ fun ⟨listed, inside, doomed⟩ => (kept listed inside).1 doomed,
    erased.kept _ fun ⟨listed, inside, doomed⟩ => (kept listed inside).2 doomed⟩

/-- Data without a sidecar is left alone. -/
theorem enumerate_alone {path : CachePath} (isHash : IsHash path.name)
    (absent : path.sidecar ∉ files) :
    (enumerate codec listing files).files.lookup path.sidecar = none ∧
      (enumerate codec listing files).files.lookup path = files.lookup path := by
  obtain ⟨-, erased⟩ := @enumerate_eq codec files listing named order
  have kept (listed : CachePath) (inside : listed ∈ listing) :=
    @not_doomed codec listed files path (named listed (order.mem_iff.mp inside)) isHash
      fun same => absent (order.mem_iff.mp (same ▸ inside))
  refine ⟨?_, erased.kept _ fun ⟨listed, inside, doomed⟩ =>
    (kept listed inside).2 doomed⟩
  rw [erased.kept _ fun ⟨listed, inside, doomed⟩ => (kept listed inside).1 doomed]
  exact AList.lookup_eq_none.mpr absent

end Listing

/-- Start-up recovery.  Every recoverable key is returned once, with the size of
its file, and keeps its files; every temporary file is removed, and so is every
other sidecar together with the data file next to it. -/
theorem enumerate_exact (codec : Codec)
    {files : AList fun _ : CachePath => Bytes}
    {listing : List CachePath}
    (named : ∀ path ∈ files, Named path)
    (order : listing.Perm files.keys) :
    ((enumerate codec listing files).entries.map Prod.fst).Nodup ∧
    (∀ key size, (key, size) ∈ (enumerate codec listing files).entries ↔
      Recoverable codec files key size) ∧
    (∀ path, temporaryEnd <:+ path.name →
      (enumerate codec listing files).files.lookup path = none) ∧
    (∀ path, IsHash path.name → path.sidecar ∈ files →
      (∀ entry ∈ (enumerate codec listing files).entries,
        path.sidecar ≠ getMetadataPath codec entry.1) →
      (enumerate codec listing files).files.lookup path.sidecar = none ∧
        (enumerate codec listing files).files.lookup path = none) ∧
    ∀ entry ∈ (enumerate codec listing files).entries, (enumerate codec listing files).files.lookup
          (getMetadataPath codec entry.1) =
        files.lookup (getMetadataPath codec entry.1) ∧
      (enumerate codec listing files).files.lookup (getFilePath codec entry.1) =
        files.lookup (getFilePath codec entry.1) := by
  obtain ⟨-, erased⟩ := @enumerate_eq codec files listing named order
  have entries_iff := @mem_enumerate_iff codec files listing named order
  refine ⟨enumerate_nodup named order, entries_iff, fun path ends => ?_,
    fun path isHash present dropped => ?_, fun entry member => ?_⟩
  · by_cases gone : ∃ listed ∈ listing, Doomed codec files listed path
    · exact erased.removed path gone
    · rw [erased.kept path gone]
      refine AList.lookup_eq_none.mpr fun present => gone ?_
      exact ⟨path, order.mem_iff.mpr present, .inl ⟨ends, rfl⟩⟩
  · have refused : found codec files path.sidecar = none := by
      rw [Option.eq_none_iff_forall_ne_some]
      rintro ⟨key, size⟩ isFound
      obtain ⟨own, recoverable⟩ := (found_eq_some_iff (.sidecar isHash)).mp isFound
      exact dropped (key, size) ((entries_iff key size).mpr recoverable) own
    exact enumerate_dropped named order isHash present refused
  · exact enumerate_kept named order ((entries_iff entry.1 entry.2).mp member)

end Visiting

/-- A hash that tells one key from the others, and a parser that knows one
sidecar. -/
def toyCodec : Codec where
  sha256Hex key := if key = "video" then List.replicate 64 'a' else List.replicate 64 'b'
  fromSlice bytes :=
    if bytes = [1] then some { version := 1, completed := [(0, 1)], key := some "video" }
    else none
  isHash key := by split <;> decide

/-- The pair of a key, a sidecar elsewhere that claims the same key, with a data file
next to it, and a temporary file. -/
def crowded : AList fun _ : CachePath => Bytes :=
  ((((AList.singleton (getFilePath toyCodec "video") [7, 7]).insert
    (getFilePath toyCodec "video").sidecar [1]).insert
    (getFilePath toyCodec "other") [9]).insert
    (getFilePath toyCodec "other").sidecar [1]).insert
    ⟨[], [], "x.ranges.json.tmp".toList⟩ []

theorem enumerate_exact_crowded :
    ("video", 2) ∈ (enumerate toyCodec crowded.keys crowded).entries ∧
      (enumerate toyCodec crowded.keys crowded).files.lookup
        (getMetadataPath toyCodec "video") = some [1] ∧
      (enumerate toyCodec crowded.keys crowded).files.lookup
        (getFilePath toyCodec "other") = none := by
  have named : ∀ path ∈ crowded, Named path := by
    intro path member
    have listed : ∀ path ∈ crowded.keys, temporaryEnd <:+ path.name ∨
          path ∈ ["video", "other"].map (getFilePath toyCodec) ∨
          path ∈ ["video", "other"].map fun key =>
            (getFilePath toyCodec key).sidecar := by
      decide +kernel
    rcases listed path (AList.mem_keys.mpr member) with ends | isData | isSidecar
    · exact .temporary ends
    · obtain ⟨key, -, rfl⟩ := List.mem_map.mp isData
      exact .data (toyCodec.isHash key)
    · obtain ⟨key, -, rfl⟩ := List.mem_map.mp isSidecar
      exact .sidecar (toyCodec.isHash key)
  obtain ⟨-, entries, -, others, own⟩ :=
    enumerate_exact toyCodec named (List.Perm.refl crowded.keys)
  have returned : ("video", 2) ∈ (enumerate toyCodec crowded.keys crowded).entries :=
    (entries "video" 2).mpr ⟨[1], _, [7, 7], by decide +kernel, rfl,
      by decide +kernel, by decide +kernel, rfl⟩
  refine ⟨returned, (own _ returned).1.trans (by decide +kernel), ?_⟩
  exact (others _ (toyCodec.isHash "other") (by decide +kernel) (by decide +kernel)).2

/-! ## The directory by keys -/

/-- What the parser makes of a sidecar. -/
def documentOf (codec : Codec) (bytes : Bytes) : Document :=
  match codec.fromSlice bytes with
  | some metadata => .metadata metadata
  | none => .malformed

/-- The files at the paths of the keys in use are those of the directory by keys. -/
structure Depicts (codec : Codec) (used : Set Key) (files : AList fun _ : CachePath => Bytes)
    (disk : Disk) : Prop where
  sidecar : ∀ key ∈ used, disk.sidecars.lookup key =
    (files.lookup (getMetadataPath codec key)).map (documentOf codec)
  data : ∀ key ∈ used, (disk.files.lookup key).map SparseFile.length =
    (files.lookup (getFilePath codec key)).map List.length

section Depicting

variable {codec : Codec} {used : Set Key} {files : AList fun _ : CachePath => Bytes} {disk : Disk}

/-- Both enumerations keep the same pairs. -/
theorem Depicts.recoverable_iff (depicts : Depicts codec used files disk) {key : Key} {size : Nat}
    (inUse : key ∈ used) :
    Recoverable codec files key size ↔ DiskStorage.keptEntry key disk = some (key, size) := by
  have data_eq := depicts.data key inUse
  unfold Recoverable DiskStorage.keptEntry DiskStorage.keepsPair
  rw [depicts.sidecar key inUse]
  cases files.lookup (getMetadataPath codec key) with
  | none => simp
  | some sidecar =>
    cases parsed : codec.fromSlice sidecar with
    | none => simp [documentOf, parsed]
    | some metadata =>
      cases stored : files.lookup (getFilePath codec key) with
      | none =>
        rw [stored] at data_eq
        simp [Option.map_eq_none_iff.mp data_eq]
      | some data =>
        rw [stored] at data_eq
        obtain ⟨file, found, length_eq⟩ := Option.map_eq_some_iff.mp data_eq
        simp [documentOf, parsed, found, length_eq]

/-- What becomes of the files of one key. -/
theorem Depicts.swept (depicts : Depicts codec used files disk)
    (injective : Set.InjOn codec.sha256Hex used)
    (claimed : ∀ key size, Recoverable codec files key size → key ∈ used)
    {listing : List CachePath} (named : ∀ path ∈ files, Named path)
    (order : listing.Perm files.keys) {key : Key} (inUse : key ∈ used)
    {after : Disk} (swept : key ∈ disk.sidecars → DiskStorage.Swept key disk after)
    (same : key ∉ disk.sidecars → DiskStorage.SamePair key disk after) :
    after.sidecars.lookup key = ((enumerate codec listing files).files.lookup
          (getMetadataPath codec key)).map (documentOf codec) ∧
      (after.files.lookup key).map SparseFile.length = ((enumerate codec listing files).files.lookup
          (getFilePath codec key)).map List.length := by
  have isHash : IsHash (getFilePath codec key).name := codec.isHash key
  have sidecar_eq := depicts.sidecar key inUse
  by_cases present : (getFilePath codec key).sidecar ∈ files
  · have listed : key ∈ disk.sidecars := by
      rw [← AList.lookup_isSome, sidecar_eq, getMetadataPath_eq, Option.isSome_map]
      exact AList.lookup_isSome.mpr present
    cases kept : DiskStorage.keepsPair key disk with
    | true =>
      obtain ⟨-, file, opened⟩ := DiskStorage.exists_of_keepsPair kept
      have recoverable : Recoverable codec files key file.length :=
        (depicts.recoverable_iff inUse).mpr
          (DiskStorage.keptEntry_eq_some_iff.mpr ⟨kept, file, opened, rfl⟩)
      obtain ⟨sidecarKept, dataKept⟩ := enumerate_kept named order recoverable
      obtain ⟨sameSidecar, sameFile⟩ := (swept listed).kept kept
      rw [sidecarKept, dataKept, sameSidecar, sameFile]
      exact ⟨sidecar_eq, depicts.data key inUse⟩
    | false =>
      have refused : found codec files (getFilePath codec key).sidecar = none := by
        rw [Option.eq_none_iff_forall_ne_some]
        rintro ⟨other, size⟩ isFound
        obtain ⟨own, recoverable⟩ :=
          (found_eq_some_iff (.sidecar isHash)).mp isFound
        have same : other = key :=
          injective (claimed _ _ recoverable) inUse
            (congrArg CachePath.name (sidecar_eq_iff.mp own))
        subst same
        have entry := (depicts.recoverable_iff inUse).mp recoverable
        cases kept.symm.trans (DiskStorage.keptEntry_eq_some_iff.mp entry).1
      obtain ⟨sidecarGone, dataGone⟩ :=
        enumerate_dropped named order isHash present refused
      obtain ⟨noSidecar, noFile⟩ := (swept listed).removed kept
      rw [getMetadataPath_eq, sidecarGone, dataGone, noSidecar, noFile]
      exact ⟨rfl, rfl⟩
  · have missing : disk.sidecars.lookup key = none := by
      rw [sidecar_eq, getMetadataPath_eq, AList.lookup_eq_none.mpr present]
      rfl
    obtain ⟨sidecarGone, dataKept⟩ :=
      @enumerate_alone codec files listing named order _ isHash present
    obtain ⟨sameSidecar, sameFile⟩ := same (AList.lookup_eq_none.mp missing)
    rw [getMetadataPath_eq, sidecarGone, dataKept, sameSidecar, sameFile, missing]
    exact ⟨rfl, depicts.data key inUse⟩

/-- The enumeration by keys goes the same way, if no two keys in use have one hash
and no pair of files is that of another key. -/
theorem enumerate_depicts {env : Environment} (calm : env.Calm)
    (injective : Set.InjOn codec.sha256Hex used)
    (claimed : ∀ key size, Recoverable codec files key size → key ∈ used)
    (stored : ∀ key ∈ disk.sidecars, key ∈ used) {listing : List CachePath}
    (named : ∀ path ∈ files, Named path) (order : listing.Perm files.keys)
    (depicts : Depicts codec used files disk) :
    ∃ entries after, DiskStorage.enumerate env disk.reopen = (.ok entries, after) ∧
      (∀ entry, entry ∈ entries ↔ entry ∈ (enumerate codec listing files).entries) ∧
      Depicts codec used (enumerate codec listing files).files after := by
  obtain ⟨after, enumerates, -, swept, same⟩ := DiskStorage.restart_calm calm disk
  have each (key : Key) (inUse : key ∈ used) := depicts.swept injective claimed named order inUse
    (fun member => swept key member) fun absent => same key absent
  refine ⟨_, after, enumerates, fun ⟨key, size⟩ => ?_, fun key inUse => (each key inUse).1,
    fun key inUse => (each key inUse).2⟩
  rw [mem_enumerate_iff named order, List.mem_filterMap]
  constructor
  · rintro ⟨other, member, kept⟩
    obtain ⟨-, file, -, same⟩ := DiskStorage.keptEntry_eq_some_iff.mp kept
    cases same
    exact (depicts.recoverable_iff (stored key (AList.mem_keys.mpr member))).mpr kept
  · intro recoverable
    have kept := (depicts.recoverable_iff (claimed key size recoverable)).mp recoverable
    have present := DiskStorage.exists_of_keepsPair (DiskStorage.keptEntry_eq_some_iff.mp kept).1
    exact ⟨key, AList.mem_keys.mp present.1, kept⟩

end Depicting

/-- A pair of files that a restart keeps, by paths and by keys. -/
theorem enumerate_depicts_pair :
    let files := (AList.singleton (getFilePath toyCodec "video") [7, 7]).insert
      (getFilePath toyCodec "video").sidecar [1]
    ∃ entries after, DiskStorage.enumerate .calmHost { Disk.empty with
          files := AList.singleton "video" (SparseFile.empty.write 0 [7, 7])
          sidecars := AList.singleton "video" (documentOf toyCodec [1]) }.reopen =
        (.ok entries, after) ∧
      (∀ entry, entry ∈ entries ↔ entry ∈ (enumerate toyCodec files.keys files).entries) ∧
      Depicts toyCodec {"video"} (enumerate toyCodec files.keys files).files after := by
  refine enumerate_depicts Environment.calmHost_calm
    (fun _ first _ second _ => first.trans second.symm) ?_ ?_ ?_ (.refl _) ?_
  · rintro key size ⟨sidecar, metadata, data, -, parsed, -, valid, -⟩
    have named := key_eq_of_metadataIsValid valid
    simp only [toyCodec] at parsed
    split at parsed
    · cases parsed
      cases named
      rfl
    · cases parsed
  · exact fun key member => List.mem_singleton.mp member
  · intro path member
    rcases (AList.mem_insert _).mp member with rfl | isData
    · exact .sidecar (toyCodec.isHash "video")
    · cases List.mem_singleton.mp isData
      exact .data (toyCodec.isHash "video")
  · constructor <;> rintro _ rfl <;> decide +kernel

end CacheRoot
end VideoProxy
