import VideoProxy.P2pNetwork.Bencode
import VideoProxy.Utils.PercentEncoding

/-!
# Torrent files

`parse_torrent_metadata` reads the dictionary `info` of a torrent file: the name,
the files with their paths, and the hashes of the pieces.  The components of the
paths come from the name and from the list of files, and are checked in two
places.
-/

namespace VideoProxy
namespace P2pNetwork

open Faulty

/-- `TorrentFile`. -/
structure TorrentFile where
  path : List Text
  length : Nat
  deriving DecidableEq

/-- `TorrentMetadata`. -/
structure TorrentMetadata where
  infoHash : List UInt8
  name : Text
  totalLength : Nat
  pieceLength : Nat
  pieceSha1 : List (List UInt8)
  files : List TorrentFile
  deriving DecidableEq

/-- The entries of a dictionary. -/
abbrev Entries := List (List UInt8 × BValue)

/-- The value of a key that is written in ASCII. -/
def Entries.get? (entries : Entries) (key : String) : Option BValue :=
  entries.lookup (Text.ascii key.toList)

/-- `BValue::integer`. -/
def integer? : BValue → Option Nat
  | .integer (.ofNat value) => some value
  | _ => none

/-! ## Files -/

/-- The check of a component of a path. -/
def pathComponent : BValue → Except ProxyError Text
  | .bytes bytes =>
    match PercentEncoding.fromUtf8 bytes with
    | none => .error (.parse "torrent path is not UTF-8")
    | some component =>
      if component.isEmpty ∨ component = ".".toList ∨
          component = "..".toList ∨ '/' ∈ component ∨ '\\' ∈ component then
        .error (.parse "torrent path is unsafe")
      else .ok component
  | _ => .error (.parse "torrent path component is invalid")

/-- An entry of the list of files. -/
def fileEntry (name : Text) : BValue → Except ProxyError TorrentFile
  | .dict entry =>
    match (Entries.get? entry "length").bind integer? with
    | none => .error (.parse "torrent file length is invalid")
    | some length =>
      match Entries.get? entry "path" with
      | some (.list components) =>
        if components.isEmpty ∨ components.length > 128 then
          .error (.parse "torrent file path depth is invalid")
        else do
          let path ← components.mapM pathComponent
          pure { path := name :: path, length }
      | _ => .error (.parse "torrent file path is invalid")
  | _ => .error (.parse "torrent file entry is invalid")

/-- `parse_torrent_files`. -/
def parseTorrentFiles (info : Entries) (name : Text) :
    Except ProxyError (List TorrentFile) :=
  match ((info.get? "length").bind integer?).filter (0 < ·) with
  | some length =>
    if (info.get? "files").isSome then
      .error (.parse "torrent mixes single and multi-file layouts")
    else .ok [{ path := [name], length }]
  | none =>
    match info.get? "files" with
    | some (.list entries) =>
      if entries.isEmpty ∨ entries.length > 100000 then
        .error (.parse "torrent file count is invalid")
      else entries.mapM (fileEntry name)
    | _ => .error (.parse "torrent files are missing")

/-! ## The dictionary of the torrent -/

/-- The loop over the entries of the torrent, with the span of `info`. -/
def rootEntries :
    Nat → Option (BValue × Nat × Nat) →
      Faulty BencodeParser ProxyError (Option (BValue × Nat × Nat))
  | 0, _ => fail (.parse "invalid bencode value")
  | fuel + 1, info => fun parser =>
    if parser.rest.head? = some 101 then
      (do BencodeParser.skip; pure info) parser
    else
      (do
        let key ← BencodeParser.bytes
        let start ← gets BencodeParser.offset
        let value ← BencodeParser.value BencodeParser.maxDepth
        let stop ← gets BencodeParser.offset
        if key = Text.ascii "info".toList then
          if info.isSome then
            fail (.parse "duplicate torrent info dictionary")
          else rootEntries fuel (some (value, start, stop))
        else rootEntries fuel info) parser

/-- The dictionary `info` of a torrent, and where it is in the input. -/
structure InfoSpan where
  info : Entries
  start : Nat
  stop : Nat

/-- The start of `parse_torrent_metadata`, up to the dictionary `info`. -/
def infoDictionary (input : List UInt8) :
    Faulty BencodeParser ProxyError InfoSpan :=
  if input.isEmpty ∨ input.length > 4 * 1024 * 1024 then
    fail (.parse "invalid torrent metadata size")
  else if input.head? ≠ some 100 then
    fail (.parse "torrent metadata must be a dictionary")
  else do
    BencodeParser.skip
    let info ← rootEntries input.length none
    let offset ← gets BencodeParser.offset
    if offset ≠ input.length then
      fail (.parse "torrent metadata has trailing bytes")
    else
      match info with
      | none => fail (.parse "torrent metadata is missing info")
      | some (.dict info, start, stop) => pure { info, start, stop }
      | some _ => fail (.parse "torrent info is not a dictionary")

/-- The name of a torrent. -/
def torrentName (info : Entries) : Except ProxyError Text :=
  match info.get? "name" with
  | some (.bytes value) =>
    match PercentEncoding.fromUtf8 value with
    | none => .error (.parse "torrent name is not UTF-8")
    | some name =>
      if name.isEmpty ∨ '/' ∈ name ∨ '\\' ∈ name then
        .error (.parse "torrent name is unsafe")
      else .ok name
  | _ => .error (.parse "torrent name is missing")

/-- `as usize`, for a machine word of so many bits. -/
def asUsize (bits value : Nat) : Nat :=
  value % 2 ^ bits

/-- The hashes of the pieces and the length of a piece.  An input is short enough
for its offsets to be words of 32 bits; only the number of pieces is converted. -/
def torrentPiecesAt (bits : Nat) (info : Entries) (totalLength : Nat) :
    Except ProxyError (Nat × List (List UInt8)) :=
  match ((info.get? "piece length").bind integer?).filter fun value =>
      value < 2 ^ 32 ∧ 0 < value ∧ value ≤ 8 * 1024 * 1024 with
  | none => .error (.parse "torrent piece length is invalid")
  | some pieceLength =>
    match info.get? "pieces" with
    | some (.bytes pieces) =>
      if pieces.isEmpty ∨ pieces.length % 20 ≠ 0 then
        .error (.parse "torrent pieces are invalid")
      else if pieces.length / 20 > 1000000 then
        .error (.parse "torrent has too many pieces")
      else if pieces.length / 20 ≠ asUsize bits ((totalLength + pieceLength - 1) / pieceLength) then
        .error (.parse "torrent piece count does not match length")
      else
        .ok (pieceLength, (List.range (pieces.length / 20)).map fun index =>
          (pieces.drop (20 * index)).take 20)
    | _ => .error (.parse "torrent pieces are invalid")

/-- The rest of `parse_torrent_metadata`, from the dictionary `info`. -/
def torrentMetadataAt (bits : Nat) (sha1 : List UInt8 → List UInt8) (input : List UInt8)
    (found : InfoSpan) : Except ProxyError TorrentMetadata := do
  let name ← torrentName found.info
  let files ← parseTorrentFiles found.info name
  match files.foldlM (fun total file => checkedAdd total file.length) 0 with
  | none => .error (.parse "torrent total length overflow")
  | some totalLength => do
      let (pieceLength, pieceSha1) ← torrentPiecesAt bits found.info totalLength
      pure {
        infoHash := sha1 ((input.take found.stop).drop found.start)
        name
        totalLength
        pieceLength
        pieceSha1
        files }

/-- `parse_torrent_metadata`, for a machine word of so many bits. -/
def parseTorrentMetadataAt (bits : Nat) (sha1 : List UInt8 → List UInt8)
    (input : List UInt8) : Exit ProxyError TorrentMetadata :=
  ((do
    let found ← infoDictionary input
    ofExcept (torrentMetadataAt bits sha1 input found) :
      Faulty BencodeParser ProxyError TorrentMetadata) (.new input)).1

/-- `parse_torrent_metadata` on a 64-bit machine. -/
def parseTorrentMetadata
    (sha1 : List UInt8 → List UInt8)
    (input : List UInt8) : Exit ProxyError TorrentMetadata :=
  parseTorrentMetadataAt 64 sha1 input

/-! ## Paths -/

/-- A component that names an entry of the directory it is appended to. -/
structure SafeComponent (component : Text) : Prop where
  nonempty : component ≠ []
  notHere : component ≠ ".".toList
  notParent : component ≠ "..".toList
  noSlash : '/' ∉ component
  noBackslash : '\\' ∉ component

/-- A path that stays below the directory it is appended to. -/
structure SafePath (path : List Text) : Prop where
  nonempty : path ≠ []
  components : ∀ component ∈ path, SafeComponent component

/-- Where a segment leads from a directory. -/
def walk (location : List Text) (segment : Text) : List Text :=
  if segment = [] ∨ segment = ".".toList then location
  else if segment = "..".toList then location.dropLast
  else location ++ [segment]

/-- Where a component leads from a directory: a component may have segments of
its own, and one that starts with a slash starts from the root. -/
def enter (location : List Text) (component : Text) : List Text :=
  (component.splitOnP (· = '/')).foldl walk (if component.head? = some '/' then [] else location)

/-- The location that a path appended to a directory names. -/
def locate (root path : List Text) : List Text :=
  path.foldl enter root

/-- A location strictly below a directory. -/
def Below (root location : List Text) : Prop :=
  ∃ rest, rest ≠ [] ∧ location = root ++ rest

theorem enter_safe {component : Text} (safe : SafeComponent component) (location : List Text) :
    enter location component = location ++ [component] := by
  have relative : component.head? ≠ some '/' := fun starts =>
    safe.noSlash (List.mem_of_mem_head? starts)
  have whole : component.splitOnP (· = '/') = [component] :=
    List.splitOnP_eq_singleton fun char member =>
      decide_eq_false fun slash => safe.noSlash (slash ▸ member)
  rw [enter, if_neg relative, whole, List.foldl_cons, List.foldl_nil, walk,
    if_neg, if_neg safe.notParent]
  rintro (empty | here)
  · exact safe.nonempty empty
  · exact safe.notHere here

theorem locate_safe {path : List Text} (safe : ∀ component ∈ path, SafeComponent component)
    (root : List Text) :
    locate root path = root ++ path := by
  unfold locate
  induction path generalizing root with
  | nil => exact (List.append_nil root).symm
  | cons component path inductionHypothesis =>
    rw [List.foldl_cons, enter_safe (safe component List.mem_cons_self),
      inductionHypothesis fun other member =>
        safe other (List.mem_cons_of_mem _ member)]
    exact List.append_assoc root [component] path

theorem SafePath.below {path : List Text} (safe : SafePath path) (root : List Text) :
    Below root (locate root path) :=
  ⟨path, safe.nonempty, locate_safe safe.components root⟩

/-! ## What is checked -/

theorem forall_of_mapM_ok {check : α → Except ProxyError β} {values : List α} {results : List β}
    (checked : values.mapM check = .ok results) :
    ∀ result ∈ results, ∃ value ∈ values, check value = .ok result := by
  induction values generalizing results with
  | nil =>
    cases checked
    intro result member
    cases member
  | cons value values inductionHypothesis =>
    rw [List.mapM_cons] at checked
    obtain ⟨first, first_eq, checked⟩ := exists_of_except_ok checked
    obtain ⟨others, others_eq, checked⟩ := exists_of_except_ok checked
    cases checked
    intro result member
    rcases List.mem_cons.mp member with rfl | later
    · exact ⟨value, List.mem_cons_self, first_eq⟩
    · obtain ⟨other, listed, other_eq⟩ :=
        inductionHypothesis others_eq result later
      exact ⟨other, List.mem_cons_of_mem _ listed, other_eq⟩

theorem ne_nil_of_mapM_ok {check : α → Except ProxyError β} {values : List α} {results : List β}
    (nonempty : values ≠ []) (checked : values.mapM check = .ok results) :
    results ≠ [] := by
  cases values with
  | nil => exact absurd rfl nonempty
  | cons value values =>
    rw [List.mapM_cons] at checked
    obtain ⟨first, -, checked⟩ := exists_of_except_ok checked
    obtain ⟨others, -, checked⟩ := exists_of_except_ok checked
    cases checked
    exact List.cons_ne_nil _ _

theorem pathComponent_safe {value : BValue} {component : Text}
    (checked : pathComponent value = .ok component) :
    SafeComponent component := by
  unfold pathComponent at checked
  split at checked
  · split at checked
    · cases checked
    · split at checked
      · cases checked
      · rename_i accepted
        cases checked
        simp only [not_or] at accepted
        obtain ⟨nonempty, notHere, notParent, noSlash, noBackslash⟩ := accepted
        exact ⟨fun empty => nonempty (List.isEmpty_iff.mpr empty), notHere,
          notParent, noSlash, noBackslash⟩
  · cases checked

variable {name : Text}

theorem fileEntry_path {value : BValue} {file : TorrentFile}
    (checked : fileEntry name value = .ok file) :
    ∃ path, file.path = name :: path ∧ ∀ component ∈ path, SafeComponent component := by
  unfold fileEntry at checked
  split at checked
  · split at checked
    · cases checked
    · split at checked
      · split at checked
        · cases checked
        · obtain ⟨path, components, checked⟩ := exists_of_except_ok checked
          cases checked
          refine ⟨path, rfl, fun component member => ?_⟩
          obtain ⟨_, _, safe⟩ := forall_of_mapM_ok components component member
          exact pathComponent_safe safe
      · cases checked
  · cases checked

/-- There are files, and each path is the name and safe components. -/
theorem parseTorrentFiles_paths {info : Entries} {files : List TorrentFile}
    (checked : parseTorrentFiles info name = .ok files) :
    files ≠ [] ∧ ∀ file ∈ files, ∃ path, file.path = name :: path ∧
      ∀ component ∈ path, SafeComponent component := by
  unfold parseTorrentFiles at checked
  split at checked
  · split at checked
    · cases checked
    · cases checked
      refine ⟨List.cons_ne_nil _ _, fun file member => ?_⟩
      rw [List.mem_singleton.mp member]
      exact ⟨[], rfl, fun _ absent => absurd absent List.not_mem_nil⟩
  · split at checked
    · split at checked
      · cases checked
      · rename_i accepted
        have nonempty := fun empty => accepted (.inl (List.isEmpty_iff.mpr empty))
        refine ⟨ne_nil_of_mapM_ok nonempty checked, fun file member => ?_⟩
        obtain ⟨_, _, entry⟩ := forall_of_mapM_ok checked file member
        exact fileEntry_path entry
    · cases checked

theorem torrentName_safe_iff {info : Entries} (checked : torrentName info = .ok name) :
    SafeComponent name ↔ name ≠ ".".toList ∧ name ≠ "..".toList := by
  unfold torrentName at checked
  split at checked
  · split at checked
    · cases checked
    · split at checked
      · cases checked
      · rename_i accepted
        cases checked
        simp only [not_or] at accepted
        obtain ⟨nonempty, noSlash, noBackslash⟩ := accepted
        exact ⟨fun safe => ⟨safe.notHere, safe.notParent⟩, fun different =>
            ⟨fun empty => nonempty (List.isEmpty_iff.mpr empty), different.1,
              different.2, noSlash, noBackslash⟩⟩
  · cases checked

/-- The name that the dictionary `info` of an input has. -/
def inputName (input : List UInt8) : Option Text :=
  match (infoDictionary input (.new input)).1 with
  | .ok found =>
    match found.info.get? "name" with
    | some (.bytes value) => PercentEncoding.fromUtf8 value
    | _ => none
  | _ => none

theorem inputName_of_torrentName {input : List UInt8} {found : InfoSpan} {parser : BencodeParser}
    (span : infoDictionary input (.new input) = (.ok found, parser))
    (checked : torrentName found.info = .ok name) :
    inputName input = some name := by
  unfold inputName
  simp only [span]
  unfold torrentName at checked
  cases listed : found.info.get? "name" with
  | none =>
    rw [listed] at checked
    cases checked
  | some value =>
    cases value with
    | bytes bytes =>
      cases decoded : PercentEncoding.fromUtf8 bytes with
      | none =>
        simp only [listed, decoded] at checked
        cases checked
      | some text =>
        simp only [listed, decoded] at checked ⊢
        split at checked
        · cases checked
        · cases checked
          rfl
    | _ =>
      rw [listed] at checked
      cases checked

section Accepted

variable {bits : Nat} {sha1 : List UInt8 → List UInt8} {input : List UInt8} {found : InfoSpan}
  {metadata : TorrentMetadata}

/-- Where each field of an accepted torrent is from. -/
theorem torrentMetadataAt_eq_ok (checked : torrentMetadataAt bits sha1 input found = .ok metadata) :
    torrentName found.info = .ok metadata.name ∧
      parseTorrentFiles found.info metadata.name = .ok metadata.files ∧
      metadata.files.foldlM (fun total file => checkedAdd total file.length) 0 =
        some metadata.totalLength ∧
      torrentPiecesAt bits found.info metadata.totalLength =
        .ok (metadata.pieceLength, metadata.pieceSha1) ∧
      metadata.infoHash = sha1 ((input.take found.stop).drop found.start) := by
  obtain ⟨name, name_eq, checked⟩ := exists_of_except_ok checked
  obtain ⟨files, files_eq, checked⟩ := exists_of_except_ok checked
  split at checked
  · cases checked
  · rename_i totalLength summed
    obtain ⟨pieces, pieces_eq, checked⟩ := exists_of_except_ok checked
    cases checked
    exact ⟨name_eq, files_eq, summed, pieces_eq, rfl⟩

theorem parseTorrentMetadataAt_eq_ok
    (accepted : parseTorrentMetadataAt bits sha1 input = .ok metadata) :
    ∃ found parser, infoDictionary input (.new input) = (.ok found, parser) ∧
      torrentMetadataAt bits sha1 input found = .ok metadata := by
  obtain ⟨found, parser, span, accepted⟩ := exists_of_bind_ok accepted
  exact ⟨found, parser, span, (ofExcept_eq_ok (Prod.ext accepted rfl)).1⟩

end Accepted

/-- The paths of a torrent stay below the directory they are appended to, unless
the torrent is named by dots. -/
theorem torrent_paths_safe_iff
    {sha1 : List UInt8 → List UInt8}
    {input : List UInt8}
    {metadata : TorrentMetadata}
    (accepted : parseTorrentMetadata sha1 input = .ok metadata) :
    (∀ file ∈ metadata.files, SafePath file.path ∧ ∀ root, Below root (locate root file.path)) ↔
      inputName input ≠ some ".".toList ∧ inputName input ≠ some "..".toList := by
  obtain ⟨found, parser, span, checked⟩ := parseTorrentMetadataAt_eq_ok accepted
  obtain ⟨name_eq, files_eq, -⟩ := torrentMetadataAt_eq_ok checked
  have input_eq := inputName_of_torrentName span name_eq
  obtain ⟨nonempty, paths⟩ := parseTorrentFiles_paths files_eq
  have safeName := torrentName_safe_iff name_eq
  simp only [input_eq, ne_eq, Option.some.injEq]
  rw [← ne_eq, ← ne_eq, ← safeName]
  constructor
  · intro safe
    obtain ⟨file, member⟩ := List.exists_mem_of_ne_nil _ nonempty
    obtain ⟨path, path_eq, -⟩ := paths file member
    refine (safe file member).1.components metadata.name ?_
    rw [path_eq]
    exact List.mem_cons_self
  · intro safe file member
    obtain ⟨path, path_eq, components⟩ := paths file member
    have safePath : SafePath file.path := by
      rw [path_eq]
      refine ⟨List.cons_ne_nil _ _, fun component member => ?_⟩
      rcases List.mem_cons.mp member with rfl | listed
      · exact safe
      · exact components component listed
    exact ⟨safePath, safePath.below⟩

/-- A torrent that is named by two dots is accepted. -/
theorem parent_name_accepted :
    let input := Text.ascii ("d4:infod6:lengthi1e4:name2:..12:piece lengthi1e" ++
      "6:pieces20:aaaaaaaaaaaaaaaaaaaaee").toList
    parseTorrentMetadata (fun _ => []) input = .ok {
        infoHash := []
        name := "..".toList
        totalLength := 1
        pieceLength := 1
        pieceSha1 := [List.replicate 20 97]
        files := [{ path := ["..".toList], length := 1 }] } ∧
    locate ["root".toList, "cache".toList] ["..".toList] = ["root".toList] := by
  decide +kernel

/-- A torrent of two files. -/
def twoFiles : List UInt8 :=
  Text.ascii ("d4:infod5:filesld6:lengthi1e4:pathl1:aeed6:lengthi1e" ++
    "4:pathl1:d1:beee4:name1:t12:piece lengthi2e" ++
    "6:pieces20:aaaaaaaaaaaaaaaaaaaaee").toList

/-- What is read from it. -/
def twoFilesMetadata : TorrentMetadata where
  infoHash := []
  name := "t".toList
  totalLength := 2
  pieceLength := 2
  pieceSha1 := [List.replicate 20 97]
  files := [{ path := ["t".toList, "a".toList], length := 1 },
    { path := ["t".toList, "d".toList, "b".toList], length := 1 }]

/-- The paths of a torrent with two files are below the directory. -/
theorem torrent_paths_safe_two_files :
    parseTorrentMetadata (fun _ => []) twoFiles = .ok twoFilesMetadata ∧
      ∀ file ∈ twoFilesMetadata.files,
        SafePath file.path ∧ ∀ root, Below root (locate root file.path) := by
  have parsed : parseTorrentMetadata (fun _ => []) twoFiles = .ok twoFilesMetadata := by
    decide +kernel
  exact ⟨parsed, (torrent_paths_safe_iff parsed).mpr (by decide +kernel)⟩

end P2pNetwork
end VideoProxy
