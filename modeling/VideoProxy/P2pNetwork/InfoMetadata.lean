import VideoProxy.P2pNetwork.Torrent

/-!
# Torrent metadata from a raw info dictionary

`parse_info_metadata` puts the bytes that a peer sent between the start and the
end of a torrent file and parses the whole.  The hash is that of the first value
among these bytes.  Entries behind it become entries of the torrent file, so that
the hash is that of the bytes given exactly if nothing stands behind the value.
-/

namespace VideoProxy
namespace P2pNetwork

open Faulty

/-- The bytes as the only entry of a torrent file. -/
def wrapInfo (info : List UInt8) : List UInt8 :=
  Text.ascii "d4:info".toList ++ info ++ [101]

/-- `parse_info_metadata`. -/
def parseInfoMetadata (sha1 : List UInt8 → List UInt8)
    (info : List UInt8) : Exit ProxyError TorrentMetadata :=
  if info.isEmpty ∨ info.length > 4 * 1024 * 1024 ∨ info.head? ≠ some 100 then
    .error (.parse "invalid raw torrent info dictionary")
  else parseTorrentMetadata sha1 (wrapInfo info)

/-! ## The span that is hashed -/

theorem wrapInfo_eq (info : List UInt8) :
    wrapInfo info = 100 :: (Text.ascii "4:info".toList ++ (info ++ [101])) := by
  have starts : Text.ascii "d4:info".toList = 100 :: Text.ascii "4:info".toList := by
    decide +kernel
  rw [wrapInfo, starts, List.append_assoc, List.cons_append]

theorem skip_wrapInfo (info : List UInt8) :
    BencodeParser.skip (.new (wrapInfo info)) =
      (.ok (), ⟨1, Text.ascii "4:info".toList ++ (info ++ [101])⟩) := by
  rw [wrapInfo_eq]
  rfl

/-- The loop does not change the dictionary that it has found. -/
theorem rootEntries_of_found {fuel : Nat} {span : BValue × Nat × Nat} {parser after : BencodeParser}
    {found : Option (BValue × Nat × Nat)}
    (ended : rootEntries fuel (some span) parser = (.ok found, after)) :
    found = some span := by
  induction fuel generalizing parser with
  | zero => cases ended
  | succ fuel inductionHypothesis =>
    unfold rootEntries at ended
    split at ended
    · cases ended
      rfl
    · obtain ⟨key, _, _, ended⟩ := exists_of_bind_eq_ok ended
      obtain ⟨start, _, _, ended⟩ := exists_of_bind_eq_ok ended
      obtain ⟨value, _, _, ended⟩ := exists_of_bind_eq_ok ended
      obtain ⟨stop, _, _, ended⟩ := exists_of_bind_eq_ok ended
      split at ended
      · split at ended
        · cases ended
        · rename_i absent
          exact absurd rfl absent
      · exact inductionHypothesis ended

/-- The first entry of the torrent file is the dictionary. -/
theorem rootEntries_wrapped {fuel : Nat} {rest : List UInt8} {after : BencodeParser}
    {found : Option (BValue × Nat × Nat)}
    (ended : rootEntries fuel none ⟨1, Text.ascii "4:info".toList ++ rest⟩ = (.ok found, after)) :
    ∃ value behind, BencodeParser.value BencodeParser.maxDepth ⟨7, rest⟩ = (.ok value, behind) ∧
        found = some (value, 7, behind.offset) := by
  cases fuel with
  | zero => cases ended
  | succ fuel =>
    unfold rootEntries at ended
    have written : BValue.encodeBytes (Text.ascii "info".toList) = Text.ascii "4:info".toList := by
      decide +kernel
    have keyRead := @BencodeParser.reads_bytes (Text.ascii "info".toList) (by decide)
      1 rest (by decide +kernel)
    have starts : (Text.ascii "4:info".toList ++ rest).head? ≠ some 101 := by
      rw [← written]
      exact fun closes => absurd (Option.some.inj closes) (by decide +kernel)
    rw [written] at keyRead
    rw [if_neg starts, bind_of_ok keyRead] at ended
    obtain ⟨start, between, started, ended⟩ := exists_of_bind_eq_ok ended
    cases started
    obtain ⟨value, behind, parsed, ended⟩ := exists_of_bind_eq_ok ended
    obtain ⟨stop, last, stopped, ended⟩ := exists_of_bind_eq_ok ended
    cases stopped
    rw [if_pos rfl] at ended
    exact ⟨value, behind, parsed, rootEntries_of_found ended⟩

/-- The dictionary of the torrent file is read from the bytes, and its span is
that of what is read. -/
theorem infoDictionary_wrapped {info : List UInt8} {found : InfoSpan} {after : BencodeParser}
    (ended : infoDictionary (wrapInfo info) (.new (wrapInfo info)) = (.ok found, after)) :
    ∃ text rest, info ++ [101] = text ++ rest ∧
      BencodeParser.Reads (BencodeParser.value BencodeParser.maxDepth) text (.dict found.info) ∧
      ((wrapInfo info).take found.stop).drop found.start = text := by
  unfold infoDictionary at ended
  split at ended
  · cases ended
  · split at ended
    · cases ended
    · rw [bind_of_ok (skip_wrapInfo info)] at ended
      obtain ⟨entries, last, looped, ended⟩ := exists_of_bind_eq_ok ended
      obtain ⟨offset, still, measured, ended⟩ := exists_of_bind_eq_ok ended
      split at ended
      · cases ended
      · obtain ⟨value, behind, parsed, rfl⟩ :=
          rootEntries_wrapped looped
        obtain ⟨text, rest_eq, offset_eq, reads⟩ :=
          BencodeParser.local_value _ _ _ _ parsed
        change info ++ [101] = text ++ behind.rest at rest_eq
        change behind.offset = 7 + text.length at offset_eq
        cases value with
        | dict entries =>
          cases ended
          refine ⟨text, behind.rest, rest_eq, reads, ?_⟩
          have length : (Text.ascii "4:info".toList).length = 6 := by decide
          change ((wrapInfo info).take behind.offset).drop 7 = text
          rw [offset_eq, wrapInfo_eq, List.drop_take, List.drop_succ_cons,
            ← length, List.drop_left, rest_eq, Nat.add_sub_cancel_left, List.take_left]
        | _ => cases ended

/-- Only the hash depends on the digest. -/
theorem torrentMetadataAt_digest {sha1 : List UInt8 → List UInt8} {input : List UInt8}
    {found : InfoSpan} {metadata : TorrentMetadata}
    (accepted : torrentMetadataAt 64 sha1 input found = .ok metadata)
    (digest : List UInt8 → List UInt8) :
    metadata.infoHash = sha1 ((input.take found.stop).drop found.start) ∧
      torrentMetadataAt 64 digest input found = .ok { metadata with
          infoHash := digest ((input.take found.stop).drop found.start) } := by
  obtain ⟨name_eq, files_eq, total_eq, pieces_eq, hash_eq⟩ := torrentMetadataAt_eq_ok accepted
  refine ⟨hash_eq, ?_⟩
  simp only [torrentMetadataAt, name_eq, files_eq, total_eq, pieces_eq, bind, Except.bind]
  rfl

theorem parseInfoMetadata_ok {sha1 : List UInt8 → List UInt8} {info : List UInt8}
    {metadata : TorrentMetadata} (accepted : parseInfoMetadata sha1 info = .ok metadata) :
    info.length ≤ 4 * 1024 * 1024 ∧
    ∃ entries text rest, info ++ [101] = text ++ rest ∧
      BencodeParser.Reads (BencodeParser.value BencodeParser.maxDepth) text (.dict entries) ∧
      metadata.infoHash = sha1 text ∧
      ∀ digest, parseInfoMetadata digest info = .ok { metadata with infoHash := digest text } := by
  unfold parseInfoMetadata at accepted ⊢
  split at accepted
  · cases accepted
  · rename_i valid
    refine ⟨by omega, ?_⟩
    obtain ⟨found, parser, span, checked⟩ := parseTorrentMetadataAt_eq_ok accepted
    obtain ⟨text, rest, rest_eq, reads, text_eq⟩ := infoDictionary_wrapped span
    refine ⟨found.info, text, rest, rest_eq, reads, ?_, fun digest => ?_⟩
    · rw [(torrentMetadataAt_digest checked sha1).1, text_eq]
    · rw [if_neg valid]
      unfold parseTorrentMetadata parseTorrentMetadataAt
      rw [bind_of_ok span, (torrentMetadataAt_digest checked digest).2, text_eq]
      rfl

theorem BencodeParser.Reads.text_eq {parse : Faulty BencodeParser ProxyError α}
    {text other rest otherRest : List UInt8} {value otherValue : α} (reads : Reads parse text value)
    (readsOther : Reads parse other otherValue) (same : text ++ rest = other ++ otherRest)
    (short : text.length ≤ u64Max) (otherShort : other.length ≤ u64Max) :
    text = other := by
  have here := reads 0 rest (by omega)
  have there := readsOther 0 otherRest (by omega)
  rw [same, there] at here
  have rest_eq : otherRest = rest := by
    injection here with _ parser_eq
    injection parser_eq
  rw [rest_eq] at same
  exact List.append_cancel_right same

/-! ## The hash of the bytes given -/

/-- The bytes are one dictionary and nothing else. -/
def Complete (info : List UInt8) : Prop :=
  ∃ entries after, BencodeParser.value BencodeParser.maxDepth (.new info) =
      (.ok (.dict entries), after) ∧ after.rest = []

/-- The hash is that of the bytes given, whatever the digest is, exactly if they
are one dictionary and nothing else. -/
theorem info_hash_iff
    {sha1 : List UInt8 → List UInt8}
    {info : List UInt8}
    {metadata : TorrentMetadata}
    (accepted : parseInfoMetadata sha1 info = .ok metadata) :
    (∀ digest result, parseInfoMetadata digest info = .ok result → result.infoHash = digest info) ↔
      Complete info := by
  obtain ⟨small, entries, text, rest, rest_eq, reads, _, others⟩ :=
    parseInfoMetadata_ok accepted
  have short : text.length ≤ u64Max := by
    have lengths := congrArg List.length rest_eq
    rw [List.length_append, List.length_append, List.length_singleton] at lengths
    unfold u64Max
    omega
  constructor
  · intro hashed
    have same : text = info := hashed id _ (others id)
    have whole := reads 0 [] (by omega)
    rw [List.append_nil, same] at whole
    exact ⟨entries, _, whole, rfl⟩
  · rintro ⟨ownEntries, after, parsed, nothing⟩ digest result digested
    obtain ⟨own, own_eq, _, readsOwn⟩ := BencodeParser.local_value _ _ _ _ parsed
    rw [nothing, List.append_nil] at own_eq
    change info = own at own_eq
    rw [← own_eq] at readsOwn
    have same : text = info := reads.text_eq readsOwn rest_eq.symm short (by
      unfold u64Max
      omega)
    rw [others digest] at digested
    cases digested
    rw [same]

/-- The dictionary of a torrent of one byte. -/
def oneByteInfo : List UInt8 :=
  Text.ascii ("d6:lengthi1e4:name1:a12:piece lengthi1e" ++
    "6:pieces20:aaaaaaaaaaaaaaaaaaaae").toList

/-- What is read from it, with a hash. -/
def oneByteMetadata (infoHash : List UInt8) : TorrentMetadata where
  infoHash
  name := "a".toList
  totalLength := 1
  pieceLength := 1
  pieceSha1 := [List.replicate 20 97]
  files := [{ path := ["a".toList], length := 1 }]

theorem info_hash_iff_one_byte :
    parseInfoMetadata id oneByteInfo = .ok (oneByteMetadata oneByteInfo) ∧
      ((∀ digest result, parseInfoMetadata digest oneByteInfo = .ok result →
        result.infoHash = digest oneByteInfo) ↔ Complete oneByteInfo) := by
  have parsed : parseInfoMetadata id oneByteInfo = .ok (oneByteMetadata oneByteInfo) := by
    decide +kernel
  exact ⟨parsed, info_hash_iff parsed⟩

/-- An entry behind the dictionary is accepted and not hashed. -/
theorem trailing_entry_unhashed :
    (∀ sha1, parseInfoMetadata sha1 (oneByteInfo ++ Text.ascii "1:bi0e".toList) =
      .ok (oneByteMetadata (sha1 oneByteInfo))) ∧
    oneByteInfo ≠ oneByteInfo ++ Text.ascii "1:bi0e".toList := by
  have parsed : parseInfoMetadata id (oneByteInfo ++ Text.ascii "1:bi0e".toList) =
      .ok (oneByteMetadata oneByteInfo) := by
    decide +kernel
  refine ⟨fun sha1 => ?_, by decide +kernel⟩
  obtain ⟨_, entries, text, rest, _, _, hash_eq, others⟩ := parseInfoMetadata_ok parsed
  rw [others sha1, ← show oneByteInfo = text from hash_eq]
  rfl

end P2pNetwork
end VideoProxy
