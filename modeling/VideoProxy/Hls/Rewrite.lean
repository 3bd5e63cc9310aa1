import VideoProxy.Lib.Search
import VideoProxy.Lib.Url
import VideoProxy.Utils.Error
import VideoProxy.Utils.PercentEncoding

/-!
# Rewriting of playlists

The references of a playlist are made absolute against the directory of the
playlist, encoded as one path segment and put under the path of the proxy.
-/

namespace VideoProxy
namespace Hls

/-- `PROXY_PREFIX`. -/
def proxyPrefix : Text := "/proxy/".toList

/-- `DefaultHlsHandler::get_base_url`, with the text of a parser error. -/
def getBaseUrl (rules : UrlRules) (parseError : Text → String)
    (url : Text) : Except ProxyError Text :=
  match rules.parse url with
  | none => .error (.parse ("无法解析URL: " ++ parseError url))
  | some base => .ok (rules.pop base).toText

/-- `trim_end_matches('/')`. -/
def trimSlashes (text : Text) : Text :=
  text.rdropWhile (· = '/')

/-- `Base`. -/
structure Base where
  trimmed : Text
  parsed : Option Url

/-- `Base::new`. -/
def Base.new (rules : UrlRules) (baseUrl : Text) : Base :=
  let trimmed := trimSlashes baseUrl
  { trimmed := trimmed, parsed := rules.parse (trimmed ++ ['/']) }

/-- `is_absolute_http`. -/
def isAbsoluteHttp (reference : Text) : Bool :=
  "http://".toList.isPrefixOf reference || "https://".toList.isPrefixOf reference

/-- A reference without the path of the proxy. -/
def stripProxy (reference : Text) : Text :=
  match Text.stripStart proxyPrefix reference with
  | some inner =>
    match PercentEncoding.decodeComponent inner with
    | .ok decoded => decoded
    | .error _ => inner
  | none => reference

/-- `absolutize`. -/
def absolutize (rules : UrlRules) (reference : Text) (base : Base) : Text :=
  let reference := stripProxy (Text.trim reference)
  if isAbsoluteHttp reference then reference
  else
    match base.parsed.bind fun url => rules.join url reference with
    | some joined => joined.toText
    | none => base.trimmed ++ ['/'] ++ reference.dropWhile (· = '/')

/-! ## Lines and tags -/

/-- A line without the carriage return before its line feed. -/
def stripReturn (line : Text) : Text :=
  if line.getLast? = some '\r' then line.dropLast else line

/-- `str::lines`: what follows the last line feed is a line only if it is not
empty, and keeps a carriage return at its end. -/
def lines (text : Text) : List Text :=
  let parts := text.splitOnP (· = '\n')
  let last := parts.getLast?.getD []
  parts.dropLast.map stripReturn ++ if last.isEmpty then [] else [last]

/-- `push_proxied`: what is pushed. -/
def pushProxied (absoluteUrl proxyPrefix : Text) : Text :=
  proxyPrefix ++ '/' :: PercentEncoding.encodeComponent absoluteUrl

/-- `NEEDLE`. -/
def needle : Text := "URI=\"".toList

/-- `push_rewritten_tag`: what is pushed; the fuel bounds the characters left. -/
def pushRewrittenTag (rules : UrlRules) (base : Base) (proxyPrefix : Text) : Nat → Text → Text
  | 0, rest => rest
  | fuel + 1, rest =>
    match splitFirst needle rest with
    | none => rest
    | some (before, tail) =>
      match Text.splitOnce '"' tail with
      | none => rest
      | some (value, others) =>
        before ++ needle ++ (if value.isEmpty then []
          else pushProxied (absolutize rules value base) proxyPrefix) ++
          '"' :: pushRewrittenTag rules base proxyPrefix fuel others

/-- `HlsManager::rewrite_m3u8`. -/
def rewriteM3u8 (rules : UrlRules) (content baseUrl proxyPrefix : Text) : Text :=
  let base := Base.new rules baseUrl
  let start := trimSlashes proxyPrefix
  (lines content).flatMap fun line =>
    if line.head? = some '#' then
      pushRewrittenTag rules base start line.length line ++ ['\n']
    else if line.isEmpty then []
    else pushProxied (absolutize rules line base) start ++ ['\n']

end Hls
end VideoProxy
