import PinnedBuild.Bytes
import PinnedBuild.Download.Url

/-!
Getting a body over HTTP: requests are sent one after the other as long as answers lead elsewhere,
and the body of the last answer is delivered.
-/

namespace PinnedBuild.Download

/-- Why a transfer fails. -/
inductive TransferError where
  | unsupportedScheme
  | malformedUrl
  | couldNotConnect
  /-- There is less of the body than announced. -/
  | partialBody
  /-- What receives the body takes no more of it. -/
  | refused
  | tooManyRedirects
  /-- The connection is closed without an answer. -/
  | noAnswer
  | optionOutOfRange
  | zeroByte
  deriving DecidableEq, Repr

namespace TransferError

def numbered : TransferError → Nat × String
  | unsupportedScheme => (1, "Unsupported protocol")
  | malformedUrl => (3, "URL using bad/illegal format or missing URL")
  | couldNotConnect => (7, "Could not connect to server")
  | partialBody => (18, "Transferred a partial file")
  | refused => (23, "Failed writing received data to disk/application")
  | optionOutOfRange => (43, "An option was given a bad value")
  | tooManyRedirects => (47, "Number of redirects hit maximum amount")
  | noAnswer => (52, "Server returned nothing (no headers, no data)")
  | zeroByte => (75, "Conversion failed")

def code (e : TransferError) : Nat := e.numbered.1

def message (e : TransferError) : String := "[" ++ toString e.code ++ "] " ++ e.numbered.2

end TransferError

structure FetchOptions where
  maxRedirections : Nat := 10
  deriving DecidableEq, Repr

/-- All that is seen of a transfer: the requests sent, the pieces of the body in the order in which
they arrive, and the status of the last answer or an error. -/
structure Transfer where
  requests : List String
  pieces : List Bytes
  outcome : Except TransferError Nat
  deriving Repr

/-- What is at the other end: transfers by address and options. -/
abbrev Network := String → FetchOptions → Transfer

/-! ### Servers -/

/-- An answer of a server. -/
structure Response where
  status : Nat
  location : Option String := none
  body : Bytes
  /-- The length that is announced for the body. -/
  announced : Option Nat := none
  deriving DecidableEq, Repr

/-- What a server answers, or what the transfer fails with where that is no answer. -/
abbrev Server := String → Except TransferError Response

namespace Response

/-- Where an answer leads, if it leads elsewhere. -/
def leadsTo? (r : Response) : Option String :=
  if 300 ≤ r.status ∧ r.status < 400 then r.location.filter fun l => !l.isEmpty else none

def hasBody (r : Response) : Bool := 200 ≤ r.status && r.status ≠ 204 && r.status ≠ 304

/-- The part of the body that belongs to the answer. -/
def delivered (r : Response) : Bytes :=
  if r.hasBody then
    match r.announced with
    | some n => r.body.take n
    | none => r.body
  else []

def isShort (r : Response) : Bool :=
  match r.announced with
  | some n => r.hasBody && r.body.length < n
  | none => false

end Response

namespace Transfer

def failed (e : TransferError) : Transfer := ⟨[], [], .error e⟩

/-- The same transfer with a request in front of it. -/
def after (request : String) (t : Transfer) : Transfer :=
  { t with requests := request :: t.requests }

/-- An answer that leads nowhere else. -/
def ofResponse (r : Response) : Transfer :=
  ⟨[], if r.delivered.isEmpty then [] else [r.delivered],
    if r.isShort then .error .partialBody else .ok r.status⟩

/-- Sends a request, and follows where the answers lead as often as `room` allows. -/
def follow (servers : String → Option Server) (room : Nat) (u : Url) : Transfer :=
  if u.scheme ≠ "http" then
    failed (if u.scheme = "https" then .couldNotConnect else .unsupportedScheme)
  else
    match servers u.authority with
    | none => failed .couldNotConnect
    | some server =>
      match server u.target with
      | .error e => (failed e).after u.target
      | .ok r =>
        match r.leadsTo?, room with
        | none, _ => (ofResponse r).after u.target
        | some _, 0 => (failed .tooManyRedirects).after u.target
        | some l, room + 1 =>
          match u.resolve? l with
          | none => (failed .malformedUrl).after u.target
          | some v => (follow servers room v).after u.target

end Transfer

/-- A network of servers by address. Secure connections cannot be made in it. -/
def Network.ofServers (servers : String → Option Server) : Network := fun url options =>
  if 32767 < options.maxRedirections then .failed .optionOutOfRange
  else match Url.parse? url with
    | none => .failed .malformedUrl
    | some u => Transfer.follow servers options.maxRedirections u

end PinnedBuild.Download
