import LinkRelay.Provider
import LinkRelay.Text.Number
import LinkRelay.Url.Fault
set_option autoImplicit false

/-!
# Failures

Every failure is recorded by its cause. `Failure.message` gives its text; `told` is the cause of
a failure that comes with a text of its own.
-/

namespace LinkRelay

inductive ParseFault where
  | rangeUnit (header : String)
  | rangeList (ranges : String)
  | rangeShape (range : String)
  | rangeUnbounded
  | bound (which : String) (fault : Text.NumberFault)
  | contentRangeUnit (header : String)
  | contentRangeTotal (range : String)
  | contentRangeSpan (span : String)
  | contentRangeMismatch (first last : Nat) (header : String)
  | notMagnet (text : String)
  | noInfoHash (text : String)
  | invalidInfoHash (hash : String)
  | blankRelease
  | missingParameter (path name : String)
  | timeBefore1970
  | response
  | told (text : String)
  deriving DecidableEq, Repr

def ParseFault.message : ParseFault → String
  | .rangeUnit header => s!"Range header must start with 'bytes=', got: {header}"
  | .rangeList ranges => s!"Multiple ranges are not supported: {ranges}"
  | .rangeShape range => s!"Invalid range format, expected 'start-end', got: {range}"
  | .rangeUnbounded => "Range header has neither start nor end"
  | .bound which fault => s!"Invalid {which} value: {fault.message}"
  | .contentRangeUnit header => s!"Content-Range must start with 'bytes ', got: {header}"
  | .contentRangeTotal range =>
    s!"Invalid Content-Range format, expected 'start-end/total', got: {range}"
  | .contentRangeSpan span => s!"Invalid range format in Content-Range: {span}"
  | .contentRangeMismatch first last header =>
    s!"Content-Range mismatch: expected {first}-{last}, got {header}"
  | .notMagnet text => s!"not a magnet URI: {text}"
  | .noInfoHash text => s!"magnet has no urn:btih topic: {text}"
  | .invalidInfoHash hash => s!"invalid info hash '{hash}'"
  | .blankRelease => "usenet release name must not be empty"
  | .missingParameter path name => s!"easynews file {path} is missing parameter '{name}'"
  | .timeBefore1970 => "SystemTime must be later than UNIX_EPOCH"
  | .response => "Failed to decode response: error decoding response body"
  | .told text => text

inductive NetworkFault where
  | unreadableUrl
  | unsupportedUrl (url : String)
  | noAnswer (url : String)
  | endlessRedirect (url : String)
  | closedEarly (received expected : Nat)
  | told (text : String)
  deriving DecidableEq, Repr

def NetworkFault.message : NetworkFault → String
  | .unreadableUrl => "builder error"
  | .unsupportedUrl url => s!"builder error for url ({url})"
  | .noAnswer url => s!"error sending request for url ({url})"
  | .endlessRedirect url => s!"error following redirect for url ({url})"
  | .closedEarly received expected => s!"upstream closed after {received} of {expected} bytes"
  | .told text => text

inductive RangeFault where
  | backwards (first last : Nat)
  | emptyFile
  | emptySuffix
  | pastEnd (start size : Nat)
  | told (text : String)
  deriving DecidableEq, Repr

def RangeFault.message : RangeFault → String
  | .backwards first last => s!"start ({first}) must be <= end ({last})"
  | .emptyFile => "cannot take a range of an empty file"
  | .emptySuffix => "suffix range length must be positive"
  | .pastEnd start size => s!"start {start} is beyond end of file ({size} bytes)"
  | .told text => text

inductive ConfigFault where
  | unreadable (detail : String)
  | unparsable (detail : String)
  | noProvider
  | repeated (p : Provider)
  | zeroLimit (p : Provider)
  | invalidBaseUrl (p : Provider) (url : String) (fault : UrlFault)
  | foreignBaseUrl (p : Provider) (url : String)
  | noApiKey
  | noLogin
  | invalidHealthAddress (address : String)
  | zeroTimeout
  | linkBaseUrl (fault : UrlFault)
  | linkLogin
  | linkPath
  | told (text : String)
  deriving DecidableEq, Repr

def ConfigFault.message : ConfigFault → String
  | .unreadable detail => s!"Failed to read config file: {detail}"
  | .unparsable detail => s!"Failed to parse config file: {detail}"
  | .noProvider => "at least one provider must be configured"
  | .repeated p => s!"provider {p.name} is configured more than once"
  | .zeroLimit p =>
    s!"provider {p.name} rate_limit window_ms and max_requests must be greater than 0"
  | .invalidBaseUrl p url fault => s!"provider {p.name} base_url {url} is invalid: {fault.message}"
  | .foreignBaseUrl p url => s!"provider {p.name} base_url {url} must be an http(s) URL"
  | .noApiKey => "premiumize requires an api_key"
  | .noLogin => "easynews requires a username and password"
  | .invalidHealthAddress address =>
    s!"invalid health_address {address}: invalid socket address syntax"
  | .zeroTimeout => "timeouts must be greater than 0"
  | .linkBaseUrl fault => s!"invalid easynews base url: {fault.message}"
  | .linkLogin => "easynews base url cannot carry credentials"
  | .linkPath => "easynews base url cannot be a base"
  | .told text => text

inductive StoreFault where
  | unreadable (path detail : String)
  | unparsable (path detail : String)
  | unreplaced (detail : String)
  | unwritten (detail : String)
  | told (text : String)
  deriving DecidableEq, Repr

def StoreFault.message : StoreFault → String
  | .unreadable path detail => s!"Failed to read state file {path}: {detail}"
  | .unparsable path detail => s!"Failed to parse state file {path}: {detail}"
  | .unreplaced detail => s!"Failed to persist state file: {detail}"
  | .unwritten detail => detail
  | .told text => text

inductive InternalFault where
  | zeroQuota (name : String)
  | told (text : String)
  deriving DecidableEq, Repr

def InternalFault.message : InternalFault → String
  | .zeroQuota name => s!"rate limiter for {name} has a zero quota and can never admit a call"
  | .told text => text

inductive StatusClass where
  | client
  | server
  | unexpected
  deriving DecidableEq, Repr

inductive Failure where
  | status (cls : StatusClass) (code : Nat) (endpoint body : String)
  | network (fault : NetworkFault)
  | parse (fault : ParseFault)
  | range (fault : RangeFault)
  | config (fault : ConfigFault)
  | store (fault : StoreFault)
  | noCachedFiles (content : String)
  | noLiveLink (path : String)
  | internal (fault : InternalFault)
  deriving DecidableEq, Repr

namespace Failure

def message : Failure → String
  | .status .client code endpoint body =>
    s!"Provider returned 4xx error: {code} at {endpoint}: {body}"
  | .status .server code endpoint body =>
    s!"Provider returned 5xx error: {code} at {endpoint}: {body}"
  | .status .unexpected code endpoint body =>
    s!"Provider returned unexpected status: {code} at {endpoint}: {body}"
  | .network fault => s!"Network error: {fault.message}"
  | .parse fault => s!"Parse error: {fault.message}"
  | .range fault => s!"Invalid byte range: {fault.message}"
  | .config fault => s!"Configuration error: {fault.message}"
  | .store fault => s!"Record store error: {fault.message}"
  | .noCachedFiles content => s!"No cached files found for {content}"
  | .noLiveLink path => s!"No live link available for {path}"
  | .internal fault => s!"Internal error: {fault.message}"

def ofStatus (code : Nat) (endpoint body : String) : Failure :=
  if 400 ≤ code ∧ code < 500 then .status .client code endpoint body
  else if 500 ≤ code ∧ code < 600 then .status .server code endpoint body
  else .status .unexpected code endpoint body

/-- Whether asking again may help: the server failed, answered strangely or unreadably. -/
def shouldRetry : Failure → Bool
  | .status .client .. => false
  | .status .. => true
  | .parse _ => true
  | _ => false

/-- Whether the failure is this program's own, and no statement about a provider. -/
def isFatal : Failure → Bool
  | .store _ | .config _ | .internal _ => true
  | _ => false

def status? : Failure → Option Nat
  | .status _ code _ _ => some code
  | _ => none

def isRateLimited (f : Failure) : Bool := f.status? == some 429

theorem isFatal_of_shouldRetry {f : Failure} (h : f.shouldRetry = true) : f.isFatal = false := by
  cases f with
  | status cls code endpoint body => rfl
  | parse fault => rfl
  | _ => simp [shouldRetry] at h

end Failure
end LinkRelay
