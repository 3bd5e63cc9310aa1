import VideoProxy.Hls.Rewrite
import VideoProxy.SourceRegistry

/-!
# Registration of rewritten references

The references of a rewritten playlist are found again by the path of the proxy
that the rewriting put before them.  Each is registered as a source, and its id
takes the place of the reference.
-/

namespace VideoProxy
namespace Hls

open Faulty

/-- Where a reference ends. -/
def endsReference (char : Char) : Bool :=
  Text.isWhitespace char || char = '"' || char = Char.ofNat 39

/-- The path under which a source is served. -/
def mediaPath (id : Nat) : Text :=
  "/media/".toList ++ Text.decimal id

/-- A reference is registered, and the path of its source is written. -/
def registerReference (parse : Text → Option ParsedUrl) (encoded : Text) :
    Faulty NumberedRegistry ProxyError Text :=
  match PercentEncoding.decodeComponent encoded with
  | .error error => fail (.request ("URL 解码失败: " ++ error.display))
  | .ok sourceUrl => do
      let id ← NumberedRegistry.registerOrReuse parse "hls".toList sourceUrl
      pure (mediaPath id)

/-- The loop of `register_rewritten_sources`; the fuel bounds the characters
left. -/
def registerReferences (parse : Text → Option ParsedUrl) :
    Nat → Text → Faulty NumberedRegistry ProxyError Text
  | 0, rest => pure rest
  | fuel + 1, rest =>
    match splitFirst proxyPrefix rest with
    | none => pure rest
    | some (before, tail) => do
        let path ← registerReference parse (tail.takeWhile (!endsReference ·))
        let others ← registerReferences parse fuel (tail.dropWhile (!endsReference ·))
        pure (before ++ path ++ others)

/-- `DefaultHlsHandler::register_rewritten_sources`. -/
def registerRewrittenSources (parse : Text → Option ParsedUrl)
    (content : Text) : Faulty NumberedRegistry ProxyError Text :=
  registerReferences parse content.length content

/-! ## The parts of a playlist -/

/-- The references of a playlist, and the text that has to stay. -/
inductive Piece
  | fixed (text : Text)
  | reference (value : Text)
  deriving DecidableEq

namespace Piece

/-- The text of a piece, given what is written for a reference. -/
def render (write : Text → Text) : Piece → Text
  | .fixed text => text
  | .reference value => write value

/-- The reference of a piece. -/
def value? : Piece → Option Text
  | .fixed _ => none
  | .reference value => some value

end Piece

/-- The pieces of a tag as `push_rewritten_tag` finds them: whatever stands between
`URI="` and the next quote is a reference. -/
def tagPieces : Nat → Text → List Piece
  | 0, rest => [.fixed (rest ++ ['\n'])]
  | fuel + 1, rest =>
    match splitFirst needle rest with
    | none => [.fixed (rest ++ ['\n'])]
    | some (before, tail) =>
      match Text.splitOnce '"' tail with
      | none => [.fixed (rest ++ ['\n'])]
      | some (value, others) =>
        .fixed (before ++ needle) :: ((if value.isEmpty then [] else [.reference value]) ++
            .fixed ['"'] :: tagPieces fuel others)

/-- The pieces of a line: a line that is not a tag is a reference. -/
def linePieces (line : Text) : List Piece :=
  if line.head? = some '#' then tagPieces line.length line
  else if line.isEmpty then []
  else [.reference line, .fixed ['\n']]

/-- The pieces of a playlist. -/
def pieces (content : Text) : List Piece :=
  (lines content).flatMap linePieces

/-- The references of a playlist. -/
def references (content : Text) : List Text :=
  (pieces content).filterMap Piece.value?

/-- The pieces with ids in the place of the references. -/
inductive Renders (resolves : Text → Nat → Prop) : List Piece → Text → Prop
  | nil : Renders resolves [] []
  | fixed {text pieces output}
      (others : Renders resolves pieces output) :
      Renders resolves (.fixed text :: pieces) (text ++ output)
  | reference {value id pieces output}
      (here : resolves value id)
      (others : Renders resolves pieces output) :
      Renders resolves (.reference value :: pieces) (mediaPath id ++ output)

theorem Renders.fixed_infix {resolves : Text → Nat → Prop} {pieces : List Piece}
    {output text : Text} (renders : Renders resolves pieces output)
    (member : .fixed text ∈ pieces) :
    text <:+: output := by
  induction renders with
  | nil => cases member
  | fixed _ inductionHypothesis =>
    rcases List.mem_cons.mp member with same | later
    · cases same
      exact (List.prefix_append _ _).isInfix
    · exact (inductionHypothesis later).trans (List.suffix_append _ _).isInfix
  | reference _ _ inductionHypothesis =>
    rcases List.mem_cons.mp member with same | later
    · cases same
    · exact (inductionHypothesis later).trans (List.suffix_append _ _).isInfix

/-! ## The first pass -/

section Rewriting

variable (rules : UrlRules)

/-- The rewriting of a tag replaces its references. -/
theorem pushRewrittenTag_eq (base : Base) (start : Text) (fuel : Nat) (rest : Text) :
    pushRewrittenTag rules base start fuel rest ++ ['\n'] =
      (tagPieces fuel rest).flatMap (Piece.render fun value =>
        pushProxied (absolutize rules value base) start) := by
  induction fuel generalizing rest with
  | zero => simp [pushRewrittenTag, tagPieces, Piece.render]
  | succ fuel inductionHypothesis =>
    rw [pushRewrittenTag, tagPieces]
    cases found : splitFirst needle rest with
    | none => simp [Piece.render]
    | some parts =>
      obtain ⟨before, tail⟩ := parts
      cases quoted : Text.splitOnce '"' tail with
      | none => simp [quoted, Piece.render]
      | some parts =>
        obtain ⟨value, others⟩ := parts
        cases empty : value.isEmpty with
        | true => simp [quoted, empty, Piece.render,
            ← inductionHypothesis]
        | false => simp [quoted, empty, Piece.render,
            ← inductionHypothesis]

/-- The rewriting of a playlist replaces its references. -/
theorem rewriteM3u8_eq (content baseUrl proxyPath : Text) :
    rewriteM3u8 rules content baseUrl proxyPath =
      (pieces content).flatMap (Piece.render fun value =>
        pushProxied (absolutize rules value (Base.new rules baseUrl)) (trimSlashes proxyPath)) := by
  unfold rewriteM3u8 pieces
  rw [List.flatMap_assoc]
  change (lines content).flatMap _ = (lines content).flatMap _
  congr 1
  funext line
  unfold linePieces
  split
  · exact pushRewrittenTag_eq rules _ _ _ _
  · split
    · rfl
    · simp [Piece.render]

end Rewriting

/-! ## The second pass -/

theorem proxyPrefix_ne_nil : proxyPrefix ≠ [] := by
  decide

theorem length_after_lt {text before tail : Text}
    (found : splitFirst proxyPrefix text = some (before, tail)) :
    (tail.dropWhile (!endsReference ·)).length < text.length := by
  obtain ⟨rfl, _⟩ := (splitFirst_eq_some found).resolve_right proxyPrefix_ne_nil
  have shorter : (tail.dropWhile (!endsReference ·)).length ≤ tail.length :=
    (List.dropWhile_suffix _).length_le
  have positive := List.length_pos_of_ne_nil proxyPrefix_ne_nil
  rw [List.length_append, List.length_append]
  omega

/-- The pass goes on after a reference until there is none left. -/
theorem pass_induction {motive : Text → Prop}
    (clear : ∀ text, ¬proxyPrefix <:+: text → motive text)
    (step : ∀ text before tail, splitFirst proxyPrefix text = some (before, tail) →
      motive (tail.dropWhile (!endsReference ·)) → motive text)
    (text : Text) :
    motive text := by
  induction length_eq : text.length using Nat.strong_induction_on generalizing text with
  | h length inductionHypothesis =>
    cases found : splitFirst proxyPrefix text with
    | none => exact clear text (splitFirst_eq_none_iff.mp found)
    | some parts =>
      exact step text _ _ found
        (inductionHypothesis _ (length_eq ▸ length_after_lt found) _ rfl)

/-- A character that the path of the proxy does not reach across, and at which a
reference ends. -/
def Separates (letter : Char) : Prop :=
  letter ∉ proxyPrefix ∧ endsReference letter = true

theorem separates_lineFeed : Separates '\n' :=
  ⟨by decide, by decide⟩

theorem separates_quote : Separates '"' :=
  ⟨by decide, by decide⟩

theorem Separates.takeWhile {letter : Char} (separates : Separates letter) (front rest : Text) :
    (front ++ letter :: rest).takeWhile (!endsReference ·) =
      front.takeWhile (!endsReference ·) :=
  takeWhile_append_cons_of_neg (by simp [separates.2])

theorem Separates.dropWhile {letter : Char} (separates : Separates letter) (front rest : Text) :
    (front ++ letter :: rest).dropWhile (!endsReference ·) =
      front.dropWhile (!endsReference ·) ++ letter :: rest :=
  dropWhile_append_cons_of_neg (by simp [separates.2])

/-- Pieces as they come in a playlist: fixed text ends in a quote or a line feed,
and a reference is followed by one. -/
inductive Shaped : List Piece → Prop
  | nil : Shaped []
  | fixed {front letter pieces}
      (separates : Separates letter)
      (others : Shaped pieces) :
      Shaped (.fixed (front ++ [letter]) :: pieces)
  | reference {value letter text pieces}
      (separates : Separates letter)
      (others : Shaped (.fixed (letter :: text) :: pieces)) :
      Shaped (.reference value :: .fixed (letter :: text) :: pieces)

theorem Shaped.append {left right : List Piece} (leftShaped : Shaped left)
    (rightShaped : Shaped right) :
    Shaped (left ++ right) := by
  induction leftShaped with
  | nil => exact rightShaped
  | fixed separates _ inductionHypothesis =>
    exact .fixed separates inductionHypothesis
  | reference separates _ inductionHypothesis =>
    exact .reference separates inductionHypothesis

/-- `URI="` ends in a quote. -/
theorem Shaped.opening {pieces : List Piece} (shaped : Shaped pieces) (front : Text) :
    Shaped (.fixed (front ++ needle) :: pieces) := by
  have opened : front ++ needle = (front ++ needle.dropLast) ++ ['"'] := by
    rw [List.append_assoc]
    rfl
  rw [opened]
  exact .fixed separates_quote shaped

theorem shaped_line (line : Text) : Shaped [.reference line, .fixed ['\n']] :=
  have ended : Shaped [.fixed ([] ++ ['\n'])] := .fixed separates_lineFeed .nil
  .reference separates_lineFeed ended

theorem tagPieces_shaped (fuel : Nat) (rest : Text) : Shaped (tagPieces fuel rest) := by
  induction fuel generalizing rest with
  | zero => exact .fixed separates_lineFeed .nil
  | succ fuel inductionHypothesis =>
    rw [tagPieces]
    split
    · exact .fixed separates_lineFeed .nil
    · split
      · exact .fixed separates_lineFeed .nil
      · rename_i value others _
        have quoted : Shaped (.fixed ([] ++ ['"']) :: tagPieces fuel others) :=
          .fixed separates_quote (inductionHypothesis others)
        split
        · exact quoted.opening _
        · exact Shaped.opening (.reference separates_quote quoted) _

/-- The pieces of a playlist come in the right order. -/
theorem pieces_shaped (content : Text) : Shaped (pieces content) := by
  unfold pieces
  induction lines content with
  | nil => exact .nil
  | cons line others inductionHypothesis =>
    rw [List.flatMap_cons]
    refine Shaped.append ?_ inductionHypothesis
    unfold linePieces
    split
    · exact tagPieces_shaped line.length line
    · split
      · exact .nil
      · exact shaped_line line

theorem not_endsReference_of_mem {value : Text} {char : Char}
    (member : char ∈ PercentEncoding.encodeComponent value) :
    (!endsReference char) = true := by
  have encoded := PercentEncoding.isEncoded_of_mem_encodeComponent member
  exact @PercentEncoding.IsEncoded.of_checked char
    (fun char => (!endsReference char) = true) encoded (by decide) (by decide +kernel)

theorem splitFirst_pushProxied (value : Text) :
    splitFirst proxyPrefix (pushProxied value "/proxy".toList) =
      some ([], PercentEncoding.encodeComponent value) :=
  splitFirst_append proxyPrefix_ne_nil (show ¬proxyPrefix <:+: [] ++ proxyPrefix.dropLast by decide)
    (PercentEncoding.encodeComponent value)

theorem takeWhile_encoded (value : Text) :
    (PercentEncoding.encodeComponent value).takeWhile (!endsReference ·) =
      PercentEncoding.encodeComponent value :=
  List.takeWhile_eq_self_iff.mpr fun _ => not_endsReference_of_mem

theorem dropWhile_encoded (value : Text) :
    (PercentEncoding.encodeComponent value).dropWhile (!endsReference ·) = [] :=
  List.dropWhile_eq_nil_iff.mpr fun _ => not_endsReference_of_mem

/-- The registry resolves an id to the URL of a reference. -/
def ResolvesIn (absolute : Text → Text) (registry : NumberedRegistry) (value : Text)
    (id : Nat) : Prop :=
  ∃ source, registry.resolve id = some source ∧ source.url = absolute value

section Registering

variable {parse : Text → Option ParsedUrl} {text : Text}

theorem registerReferences_of_clear (clear : ¬proxyPrefix <:+: text) (fuel : Nat) :
    registerReferences parse fuel text = pure text := by
  cases fuel with
  | zero => rfl
  | succ fuel => rw [registerReferences, splitFirst_eq_none_iff.mpr clear]

/-- Fuel for each character is enough. -/
theorem registerReferences_eq {fuel more : Nat} (enough : text.length ≤ fuel)
    (enoughMore : text.length ≤ more) :
    registerReferences parse fuel text = registerReferences parse more text := by
  induction fuel generalizing text more with
  | zero =>
    have empty := List.length_eq_zero_iff.mp (Nat.le_zero.mp enough)
    rw [empty, registerReferences_of_clear (by decide), registerReferences_of_clear (by decide)]
  | succ fuel inductionHypothesis =>
    cases found : splitFirst proxyPrefix text with
    | none =>
      have clear := splitFirst_eq_none_iff.mp found
      rw [registerReferences_of_clear clear, registerReferences_of_clear clear]
    | some parts =>
      have shorter := length_after_lt found
      cases more with
      | zero => omega
      | succ more =>
        simp only [registerReferences, found]
        rw [@inductionHypothesis _ more (by omega) (by omega)]

theorem registerRewrittenSources_of_clear (clear : ¬proxyPrefix <:+: text) :
    registerRewrittenSources parse text = pure text :=
  registerReferences_of_clear clear text.length

/-- The pass goes from one path of the proxy to the next. -/
theorem registerRewrittenSources_of_split {before tail : Text}
    (found : splitFirst proxyPrefix text = some (before, tail)) :
    registerRewrittenSources parse text = (do
      let path ← registerReference parse (tail.takeWhile (!endsReference ·))
      let others ← registerRewrittenSources parse (tail.dropWhile (!endsReference ·))
      pure (before ++ path ++ others)) := by
  have shorter := length_after_lt found
  rw [registerRewrittenSources, registerReferences_eq (Nat.le_refl _) (Nat.le_succ _),
    registerReferences, found]
  simp only [registerRewrittenSources]
  rw [registerReferences_eq shorter.le (Nat.le_refl _)]

/-- The pass treats what is before a separator and what is after it alone. -/
theorem registerRewrittenSources_append_cons {letter : Char} (separates : Separates letter)
    (front rest : Text) :
    registerRewrittenSources parse (front ++ letter :: rest) = (do
      let first ← registerRewrittenSources parse front
      let others ← registerRewrittenSources parse rest
      pure (first ++ letter :: others)) := by
  induction front using pass_induction with
  | clear front clear =>
    have split_eq := splitFirst_append_cons proxyPrefix_ne_nil separates.1 clear rest
    rw [registerRewrittenSources_of_clear clear, pure_bind]
    cases foundLater : splitFirst proxyPrefix rest with
    | none =>
      rw [foundLater] at split_eq
      rw [registerRewrittenSources_of_clear (splitFirst_eq_none_iff.mp split_eq),
        registerRewrittenSources_of_clear (splitFirst_eq_none_iff.mp foundLater), pure_bind]
    | some parts =>
      rw [foundLater] at split_eq
      rw [registerRewrittenSources_of_split split_eq,
        registerRewrittenSources_of_split foundLater]
      simp only [bind_assoc, pure_bind, List.append_assoc, List.cons_append]
  | step front before tail found inductionHypothesis =>
    rw [registerRewrittenSources_of_split (splitFirst_append_right proxyPrefix_ne_nil found _),
      registerRewrittenSources_of_split found, separates.takeWhile, separates.dropWhile,
      inductionHypothesis]
    simp only [bind_assoc, pure_bind, List.append_assoc]

theorem registerRewrittenSources_append {letter : Char} (separates : Separates letter)
    (front rest : Text) :
    registerRewrittenSources parse (front ++ letter :: rest) = (do
      let first ← registerRewrittenSources parse front
      let others ← registerRewrittenSources parse (letter :: rest)
      pure (first ++ others)) := by
  have alone := @registerRewrittenSources_append_cons parse letter separates [] rest
  rw [registerRewrittenSources_of_clear (show ¬proxyPrefix <:+: [] by decide), pure_bind,
    List.nil_append] at alone
  rw [registerRewrittenSources_append_cons separates, alone]
  simp only [bind_assoc, pure_bind, List.nil_append]

/-- A rewritten reference is registered. -/
theorem registerRewrittenSources_pushProxied (value : Text) :
    registerRewrittenSources parse (pushProxied value "/proxy".toList) =
      registerReference parse (PercentEncoding.encodeComponent value) := by
  rw [registerRewrittenSources_of_split (splitFirst_pushProxied value), takeWhile_encoded,
    dropWhile_encoded, registerRewrittenSources_of_clear (by decide)]
  simp only [pure_bind, List.nil_append, List.append_nil, bind_pure]

/-- The second pass finds the references again, if the rest of the playlist does
not have the path of the proxy in it. -/
theorem registerRewrittenSources_renders {absolute : Text → Text} {pieces : List Piece}
    (shaped : Shaped pieces) (clear : ∀ text, .fixed text ∈ pieces → ¬proxyPrefix <:+: text)
    (accepted : ∀ value ∈ pieces.filterMap Piece.value?,
      SourceRegistry.validateSourceUrl parse (absolute value) = .ok (absolute value))
    {registry : NumberedRegistry}
    (roomy : registry.Roomy (pieces.filterMap Piece.value?).length) :
    ∃ output after, registerRewrittenSources parse
          (pieces.flatMap (Piece.render fun value =>
            pushProxied (absolute value) "/proxy".toList)) registry =
        (.ok output, after) ∧
      registry.Extends after ∧
      Renders (ResolvesIn absolute after) pieces output := by
  induction shaped generalizing registry with
  | nil => exact ⟨[], registry, rfl, fun _ _ resolved => resolved, .nil⟩
  | @fixed front letter pieces separates _ inductionHypothesis =>
    obtain ⟨output, after, ended, extended, renders⟩ := inductionHypothesis
      (fun text member => clear text (List.mem_cons_of_mem _ member)) accepted roomy
    have frontClear : ¬proxyPrefix <:+: front := fun occurs =>
      clear _ List.mem_cons_self (occurs.trans (List.prefix_append _ _).isInfix)
    refine ⟨front ++ [letter] ++ output, after, ?_, extended, .fixed renders⟩
    rw [List.flatMap_cons, Piece.render, List.append_assoc, List.singleton_append,
      registerRewrittenSources_append_cons separates,
      registerRewrittenSources_of_clear frontClear, pure_bind, bind_of_ok ended,
      List.append_assoc]
    rfl
  | @reference value letter text pieces separates _ inductionHypothesis =>
    have named : SourceRegistry.validateComponent "hls".toList "媒体身份" = .ok "hls".toList := by
      decide
    obtain ⟨id, middle, registered, resolved, room, extendedFirst⟩ :=
      NumberedRegistry.registerOrReuse_resolves named (accepted value List.mem_cons_self) roomy
    obtain ⟨output, after, ended, extended, renders⟩ := inductionHypothesis
      (fun text member => clear text (List.mem_cons_of_mem _ member))
      (fun value member => accepted value (List.mem_cons_of_mem _ member)) room
    refine ⟨mediaPath id ++ output, after, ?_,
      fun id source listed => extended id source (extendedFirst id source listed),
      .reference ⟨_, extended id _ resolved, rfl⟩ renders⟩
    rw [List.flatMap_cons, Piece.render, List.cons_append] at ended
    rw [List.flatMap_cons, List.flatMap_cons, Piece.render, Piece.render, List.cons_append,
      registerRewrittenSources_append separates, registerRewrittenSources_pushProxied,
      registerReference, PercentEncoding.decodeComponent_encodeComponent]
    simp only [bind_assoc, pure_bind]
    rw [bind_of_ok registered, bind_of_ok ended]
    rfl

/-! ## What the second pass leaves -/

theorem noDigits : proxyPrefix.all (fun char => char.isDigit = false) = true := by
  decide

theorem append_mediaPath {id : Nat} {digits : Text} {digit : Char}
    (decimal_eq : Text.decimal id = digits ++ [digit]) (before others : Text) :
    before ++ mediaPath id ++ others = ((before ++ ['/']) ++ 'm' :: ("edia/".toList ++ digits)) ++
        digit :: others := by
  have path_eq : "/media/".toList = '/' :: 'm' :: "edia/".toList := by
    decide
  unfold mediaPath
  rw [decimal_eq, path_eq]
  simp only [List.append_assoc, List.cons_append, List.nil_append]

/-- The path of a source does not complete the path of the proxy. -/
theorem mediaPath_clear {before others : Text} (id : Nat)
    (front : ¬proxyPrefix <:+: before ++ proxyPrefix.dropLast) (back : ¬proxyPrefix <:+: others) :
    ¬proxyPrefix <:+: before ++ mediaPath id ++ others := by
  obtain ⟨digits, digit, decimal_eq⟩ : ∃ digits digit, Text.decimal id = digits ++ [digit] :=
    ⟨_, _, (List.dropLast_concat_getLast (Text.decimal_ne_nil id)).symm⟩
  have noLetter {letter : Char} (member : letter ∈ proxyPrefix) :
      letter ∉ Text.decimal id :=
    Text.not_mem_decimal (of_decide_eq_true (List.all_eq_true.mp noDigits letter member)) id
  have foreign : digit ∉ proxyPrefix := by
    intro member
    apply noLetter member
    rw [decimal_eq]
    exact List.mem_append_right digits List.mem_cons_self
  have opening : ¬proxyPrefix <:+: before ++ ['/'] := by
    intro occurs
    exact front (occurs.trans ((List.prefix_append_right_inj before).mpr
      (by decide : ['/'] <+: proxyPrefix.dropLast)).isInfix)
  have middle : ¬proxyPrefix <:+: "edia/".toList ++ digits := by
    intro occurs
    have member : 'p' ∈ "edia/".toList ++ digits :=
      occurs.subset (by decide)
    rcases List.mem_append.mp member with written | printed
    · exact absurd written (by decide)
    · apply noLetter (by decide : 'p' ∈ proxyPrefix)
      rw [decimal_eq]
      exact List.mem_append_left _ printed
  rw [append_mediaPath decimal_eq, infix_append_cons_iff proxyPrefix_ne_nil foreign,
    infix_append_cons_iff proxyPrefix_ne_nil (by decide)]
  rintro ((occurs | occurs) | occurs)
  · exact opening occurs
  · exact middle occurs
  · exact back occurs

/-- A reference that is registered is an encoded URL. -/
theorem registerReference_eq_ok {registry after : NumberedRegistry} {encoded path : Text}
    (ended : registerReference parse encoded registry = (.ok path, after)) :
    ∃ sourceUrl id, PercentEncoding.decodeComponent encoded = .ok sourceUrl ∧
      NumberedRegistry.registerOrReuse parse "hls".toList sourceUrl registry = (.ok id, after) ∧
      path = mediaPath id := by
  unfold registerReference at ended
  cases decoded : PercentEncoding.decodeComponent encoded with
  | error error =>
    rw [decoded] at ended
    cases ended
  | ok sourceUrl =>
    rw [decoded] at ended
    obtain ⟨id, middle, registered, ended⟩ := exists_of_bind_eq_ok ended
    cases ended
    exact ⟨sourceUrl, id, rfl, registered, rfl⟩

/-- The pass leaves no path of the proxy. -/
theorem registerRewrittenSources_clear {registry after : NumberedRegistry} {output : Text}
    (ended : registerRewrittenSources parse text registry = (.ok output, after)) :
    ¬proxyPrefix <:+: output := by
  induction text using pass_induction generalizing registry output with
  | clear text clear =>
    rw [registerRewrittenSources_of_clear clear] at ended
    cases ended
    exact clear
  | step text before tail found inductionHypothesis =>
    rw [registerRewrittenSources_of_split found] at ended
    obtain ⟨path, middle, registered, ended⟩ := exists_of_bind_eq_ok ended
    obtain ⟨others, final, later, ended⟩ := exists_of_bind_eq_ok ended
    cases ended
    obtain ⟨_, id, -, -, rfl⟩ := registerReference_eq_ok registered
    exact mediaPath_clear id ((splitFirst_eq_some found).resolve_right proxyPrefix_ne_nil).2
      (inductionHypothesis later)

end Registering

/-- A parser that accepts what starts like an absolute URL. -/
def parseAbsolute (text : Text) : Option ParsedUrl :=
  if isAbsoluteHttp text then
    some { scheme := "https", host := some "h", path := "/" }
  else none

end Hls
end VideoProxy
