import Solvio.Lib.Codec
import Solvio.Lib.Json
import Solvio.Lib.PyData
import Solvio.Lib.Sha256
import Solvio.Lib.Url

namespace Solvio.Portal
open Solvio.Lib

/-! ### Texts -/

/-- The tables of `TextTables`, and the upper case of a text beyond ASCII. -/
structure Texts extends TextTables where
  upper : List Char → List Char

/-- `str.upper`. -/
def Texts.uppered (T : Texts) (s : String) : String :=
  String.ofList (if s.toList.all isAscii then asciiUpper s.toList else T.upper s.toList)

variable {T : Texts}

/-- The port in an origin. Port 0 is none. -/
def portText : Option Nat → List Char
  | none => []
  | some 0 => []
  | some n => ':' :: Json.decimal n

/-- `origin_of`. A port out of range raises a `ValueError`, which is `none`. -/
def originOf (T : Texts) (url : String) : Option String :=
  match Url.split T.toTextTables url.toList with
  | none => some ""
  | some parts =>
    let host := Url.hostname T.toTextTables parts.netloc
    if parts.scheme = [] ∨ host = [] then some ""
    else (Url.port parts.netloc).map (fun port => String.ofList
      (asciiLower parts.scheme ++ "://".toList ++ T.lowered host ++ portText port))

/-! ### Bindings -/

/-- `PortalBinding`, which cannot be built without what it needs. -/
structure PortalBinding (T : Texts) where
  portalId : String
  loginUrl : String
  loginOrigin : String
  usernameSelector : String
  passwordSelector : String
  submitSelector : String
  credentialAlias : String
  successMarker : String
  origins : List String := []
  formSelector : String := ""
  apiOrigin : String := ""
  loginMethod : String := "POST"
  successPath : String := ""
  complete : ∀ s ∈ [portalId, loginUrl, loginOrigin, credentialAlias, usernameSelector,
    passwordSelector], s ≠ ""
  recognisable : successPath ≠ "" ∨ successMarker ≠ ""
  located : originOf T loginUrl = some loginOrigin

namespace PortalBinding

/-- `allowed_origins`. -/
def allowedOrigins (b : PortalBinding T) : List String :=
  (b.loginOrigin :: b.origins ++ if b.apiOrigin = "" then [] else [b.apiOrigin]).eraseDups

/-- `write_origin`. -/
def writeOrigin (b : PortalBinding T) : String :=
  if b.apiOrigin = "" then b.loginOrigin else b.apiOrigin

/-- `allows`. -/
def allows (b : PortalBinding T) (url : String) : Option Bool :=
  (originOf T url).map (fun origin => origin ≠ "" && b.allowedOrigins.contains origin)

/-- `may_inject`; the empty reason is yes. -/
def mayInject (b : PortalBinding T) (url : String) : Option String :=
  (originOf T url).map (fun origin =>
    if origin = "" then "invalid_url"
    else if origin ≠ b.loginOrigin then "origin_not_bound"
    else "")

theorem login_origin (b : PortalBinding T) : b.loginOrigin ≠ "" := b.complete _ (by simp)

theorem write_origin (b : PortalBinding T) : b.writeOrigin ≠ "" := by
  unfold writeOrigin
  split
  · exact b.login_origin
  · assumption

end PortalBinding

/-! ### Manifests -/

inductive ActionType where
  | login | formSubmit
deriving DecidableEq

def ActionType.value : ActionType → String
  | .login => "login"
  | .formSubmit => "form_submit"

/-- `FieldBinding`. -/
structure FieldBinding where
  name : String
  selector : String
  value : String := ""
  aliasName : String := ""
deriving DecidableEq

/-- `ActionManifest`, whose origin is absolute. -/
structure ActionManifest where
  portalId : String
  origin : String
  pageUrl : String
  actionType : ActionType
  target : String
  method : String
  pageSignature : String
  fields : List FieldBinding := []
  credentialAlias : String := ""
  version : Int := 1
  absolute : "https://".toList <+: origin.toList ∨ "http://".toList <+: origin.toList
deriving DecidableEq

/-- What a page says about its form. -/
structure Form where
  origin : String
  url : String
  action : String
  method : String
  fields : List String
deriving DecidableEq

/-- `page_signature`. -/
def pageSignature (T : Texts) (f : Form) (target : String) : String :=
  prefixOf (toHex (sha256 (encodeUtf8 (String.ofList (Json.obj
    [Json.field "fields" (.arr ((f.fields.insertionSort (· ≤ ·)).map Json.string)),
     Json.field "form" (Json.string f.action),
     Json.field "method" (Json.string (T.uppered (if f.method = "" then "GET" else f.method))),
     Json.field "origin" (Json.string f.origin),
     Json.field "target" (Json.string target)]).render)))) 32

/-- `_op_probe_action`, the answer. -/
structure Live where
  form : Form
  pageSignature : String
deriving DecidableEq

/-- The element that an action of a binding operates. -/
def PortalBinding.target (b : PortalBinding T) : String :=
  if b.formSelector = "" then b.submitSelector else b.formSelector

/-- The answer of `_op_probe_action`. -/
def PortalBinding.probed (b : PortalBinding T) (f : Form) : Live :=
  ⟨f, Portal.pageSignature T f b.target⟩

/-- What `drifted` is given of the page as it is now. -/
structure Look where
  origin : String
  target : String
  pageSignature : String

/-- `drifted`. The empty reason is that nothing has changed. -/
def drifted (approved : ActionManifest) (look : Look) : String :=
  if look.origin ≠ approved.origin then "origin_changed"
  else if look.target ≠ approved.target then "target_changed"
  else if look.pageSignature ≠ approved.pageSignature then "page_changed"
  else ""

end Solvio.Portal
