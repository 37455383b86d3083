import Solvio.Lib.JsonText

namespace Solvio.Realtime
open Solvio.Lib

/-! ### Shapes -/

/-- `[A-Za-z0-9._-]`. -/
def isIdCode (n : Nat) : Bool :=
  (65 ≤ n && n ≤ 90) || (97 ≤ n && n ≤ 122) || (48 ≤ n && n ≤ 57) || n == 46 || n == 95 || n == 45

/-- `[0-9a-f]`. -/
def isHexCode (n : Nat) : Bool := (48 ≤ n && n ≤ 57) || (97 ≤ n && n ≤ 102)

/-- What a match leaves out: `$` also matches in front of a last line break. -/
def withoutBreak (s : Text) : Text := if s.getLast? = some 10 then s.dropLast else s

/-- `^[...]{low,high}$`. -/
def shaped (code : Nat → Bool) (low high : Nat) (s : Text) : Bool :=
  (withoutBreak s).all code && low ≤ (withoutBreak s).length && (withoutBreak s).length ≤ high

/-- `_ID_RE`. -/
def isId (s : Text) : Bool := shaped isIdCode 1 64 s

/-- `_HEX_RE`. -/
def isHex (s : Text) : Bool := shaped isHexCode 16 128 s

/-! ### The keyed digest -/

/-- `hmac.new(key, msg, sha256)`. -/
def hmacSha256 (key msg : Bytes) : Bytes :=
  let short := if 64 < key.length then sha256 key else key
  let block := short ++ List.replicate (64 - short.length) 0
  sha256 (block.map (· ^^^ 0x5c) ++ sha256 (block.map (· ^^^ 0x36) ++ msg))

/-- The text of an integer, of which `True` and `False` are two. -/
def versionText : Json → Option Text
  | .int n => some ((Json.renderInt n).map Char.toNat)
  | .bool b => some (Text.ofString (if b then "True" else "False"))
  | _ => none

/-- `_CANONICAL_PREFIX`. -/
def canonicalPrefix : Text := Text.ofString "solvio-satellite-auth-v1"

/-- `canonical_material`. -/
def canonicalMaterial (protocolVersion : Json) (serverNonce satelliteId clientNonce : Text) :
    Except String Bytes :=
  match versionText protocolVersion with
  | none => .error "protocol_version must be an integer"
  | some version =>
    if !isId satelliteId then .error "satellite_id has an unacceptable shape"
    else if !isHex serverNonce || !isHex clientNonce then .error "nonce has an unacceptable shape"
    else .ok ((canonicalPrefix ++ 10 :: (version ++ 10 :: (serverNonce ++ 10 :: (satelliteId ++
      10 :: clientNonce)))).map UInt8.ofNat)

/-- `compute_auth`. -/
def computeAuth (secret : Bytes) (protocolVersion : Json)
    (serverNonce satelliteId clientNonce : Text) : Except String Text :=
  (canonicalMaterial protocolVersion serverNonce satelliteId clientNonce).map
    (fun material => Text.ofString (toHex (hmacSha256 secret material)))

/-- The satellites that are accepted, as the constructor checks them. -/
structure SatelliteCredentials where
  secrets : List (Text × Bytes)
  distinct : (secrets.map Prod.fst).Nodup
  configured : secrets ≠ []
  ids : ∀ p ∈ secrets, isId p.1 = true
  long : ∀ p ∈ secrets, 32 ≤ p.2.length

def SatelliteCredentials.get? (c : SatelliteCredentials) (id : Text) : Option Bytes :=
  (c.secrets.find? (fun p => p.1 == id)).map Prod.snd

/-- What Python makes of the other values of a message: whether a float equals
one, and the text of a float, a list or a dictionary. -/
structure Values where
  isOne : List Char → Bool
  text : Json → Text

variable (V : Values)

/-- `version == PROTOCOL_VERSION`. -/
def equalsOne : Json → Bool
  | .int n => n == 1
  | .bool b => b
  | .float lexeme => V.isOne lexeme
  | _ => false

/-- `str(value)`. -/
def str : Json → Text
  | .null => Text.ofString "None"
  | .bool b => Text.ofString (if b then "True" else "False")
  | .int n => (Json.renderInt n).map Char.toNat
  | .str s => s
  | v => V.text v

/-- `verify`. A `SatelliteAuthError` is raised only for an unknown id. -/
def SatelliteCredentials.verify (c : SatelliteCredentials)
    (satelliteId serverNonce clientNonce : Text) (protocolVersion : Json) (auth : Text) :
    Except String (Bool × String) :=
  if !equalsOne V protocolVersion then .ok (false, "protocol_version_mismatch")
  else if !isId satelliteId then .ok (false, "malformed_satellite_id")
  else if !isHex auth then .ok (false, "malformed_auth")
  else
    match c.get? satelliteId with
    | none =>
      (computeAuth (List.replicate 32 0) protocolVersion serverNonce satelliteId clientNonce).map
        (fun _ => (false, "unknown_satellite_id"))
    | some secret =>
      match computeAuth secret protocolVersion serverNonce satelliteId clientNonce with
      | .error _ => .ok (false, "malformed_handshake")
      | .ok expected => if expected = auth then .ok (true, "ok") else .ok (false, "bad_auth")

/-! ### The first message -/

/-- What `json.loads` comes to: a value, a `ValueError` or a `RecursionError`. -/
inductive Loaded where
  | value (v : Json)
  | malformed
  | tooDeep

inductive Frame where
  | binary
  | text (l : Loaded)

/-- What `recv` comes to. -/
inductive Received where
  | frame (f : Frame)
  | timeout
  | broken

inductive Outcome where
  | accepted (satelliteId : Text)
  | refused (code : Nat) (reason : String)
  | gone
  | raised (error : String)
deriving DecidableEq

/-- The nonce of one connection. -/
structure Challenge where
  nonce : Bytes
  size : nonce.length = 32

def Challenge.text (c : Challenge) : Text := Text.ofString (toHex c.nonce)

/-- `str(msg.get(key, ""))`. -/
def fieldText (msg : Json) (key : String) : Text := ((msg.get? key).map (str V)).getD []

def protocolVersion (msg : Json) : Json := (msg.get? "protocol_version").getD .null

def isHello : Json → Bool
  | .obj kvs =>
    match (Json.obj kvs).get? "type" with
    | some (.str s) => s == Text.ofString "hello"
    | _ => false
  | _ => false

/-- `_authenticate`, of a connection that has got its challenge. -/
def authenticate (credentials : Option SatelliteCredentials) (challenge : Challenge) :
    Received → Outcome
  | received =>
    match credentials with
    | none => .refused 1011 "satellite auth not configured"
    | some credentials =>
      match received with
      | .timeout => .refused 4401 "auth timeout"
      | .broken => .gone
      | .frame .binary => .refused 4400 "malformed hello"
      | .frame (.text .malformed) => .refused 4400 "malformed hello"
      | .frame (.text .tooDeep) => .raised "RecursionError"
      | .frame (.text (.value msg)) =>
        if !isHello msg then .refused 4400 "malformed hello"
        else
          match credentials.verify V (fieldText V msg "satellite_id") challenge.text
            (fieldText V msg "client_nonce") (protocolVersion msg) (fieldText V msg "auth") with
          | .error e => .raised e
          | .ok (true, _) =>
            .accepted (if fieldText V msg "satellite_id" = [] then Text.ofString "<missing>"
              else (fieldText V msg "satellite_id").take 64)
          | .ok (false, _) => .refused 4401 "unauthorized"

end Solvio.Realtime
