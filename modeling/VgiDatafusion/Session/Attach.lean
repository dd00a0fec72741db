import VgiDatafusion.Session.Options

/-!
# ATTACH targets, connections and companions (session.rs:2014-2323; lib.rs:142, 203-214, 252-257, 468-506)

| here | there |
| --- | --- |
| `AttachSpec`, `AttachSpec.connection` | `AttachSpec` and its `connection` |
| `VgiLocation` | `VgiLocation`; its `parse` is the client library's, so it is a parameter |
| `VgiConnection.allowsLocalFormatPaths`, `httpHost`, `hostIsLoopback` | lib.rs:474-506 |
| `readIpv4`, `readIpv6`, `parsesAsLoopback` | `parse::<IpAddr>` with `is_loopback` |
| `AttachCatalogInfo`, `companionSpec` | session.rs:2272-2323 |
| `AttachCatalogInfo.supplied` | what a companion says about an option, by its list or by its target |

Options are a map from lower-case names to SQL text. The pool of a connection is only configured here.
-/
namespace VgiDatafusion

/-! ## Locations -/

/-- The `VgiLocation` of the client library, which also parses it. -/
inductive VgiLocation
  | subprocess (argv : List Chars)
  | http (url : Chars)
  | unix (path : Chars)
  | tcp (host : Chars) (port : Nat)
  | launch (command : Chars)
  deriving DecidableEq

/-- `split_once` at `://`, the part after it. -/
def afterScheme : Chars → Option Chars
  | ':' :: '/' :: '/' :: rest => some rest
  | _ :: rest => afterScheme rest
  | [] => none

/-- `rsplit_once` at a character. -/
def rsplitOnce (separator : Char) (s : Chars) : Option (Chars × Chars) :=
  (splitOnce separator s.reverse).map fun parts => (parts.2.reverse, parts.1.reverse)

/-- `http_host` (`lib.rs:488-498`): what stands behind the first `://`, up to the path, the userinfo and the port cut off. -/
def httpHost (url : Chars) : Option Chars := do
  let rest ← afterScheme url
  let authority := rest.takeWhile fun c => c ≠ '/' ∧ c ≠ '?' ∧ c ≠ '#'
  let authority := (authority.reverse.takeWhile (· ≠ '@')).reverse
  match authority with
  | '[' :: bracketed => (splitOnce ']' bracketed).map (·.1)
  | _ =>
    match rsplitOnce ':' authority with
    | some (host, port) => if port.all Char.isDigit then some host else some authority
    | none => some authority

/-! ### Addresses -/

/-- A digit of any radix up to 16, as the address parser reads it. -/
def digitValue (c : Char) : Option Nat :=
  if '0' ≤ c ∧ c ≤ '9' then some (c.toNat - 48)
  else if 'a' ≤ c ∧ c ≤ 'f' then some (c.toNat - 87)
  else if 'A' ≤ c ∧ c ≤ 'F' then some (c.toNat - 55)
  else none

/-- `read_number`: at most `maxDigits` digits, and no further digit after them. -/
def readNumber (radix maxDigits bound : Nat) (allowZeroPrefix : Bool) (s : Chars) : Option (Nat × Chars) :=
  let isDigit := fun c => (digitValue c).any (· < radix)
  let digits := s.takeWhile isDigit
  let value := digits.foldl (fun n c => radix * n + (digitValue c).getD 0) 0
  if digits.isEmpty ∨ maxDigits < digits.length ∨ bound < value then none
  else if !allowZeroPrefix ∧ digits.head? = some '0' ∧ 1 < digits.length then none
  else some (value, s.dropWhile isDigit)

/-- `read_separator`: a separator before every part but the first. -/
def readSeparator {α : Type} (separator : Char) (index : Nat) (read : Chars → Option (α × Chars)) (s : Chars) :
    Option (α × Chars) :=
  if index = 0 then read s
  else match s with
    | c :: rest => if c = separator then read rest else none
    | [] => none

/-- The IPv4 part of `str::parse::<IpAddr>`. -/
def readIpv4 (s : Chars) : Option (List Nat × Chars) := do
  let octet := fun index => readSeparator '.' index (readNumber 10 3 255 false)
  let (a, s) ← octet 0 s
  let (b, s) ← octet 1 s
  let (c, s) ← octet 2 s
  let (d, s) ← octet 3 s
  some ([a, b, c, d], s)

/-- `read_groups` with `left` groups to go after `index`; whether it ended in an IPv4 address. -/
def readGroups : Nat → Nat → Chars → List Nat × Bool × Chars
  | 0, _, s => ([], false, s)
  | left + 1, index, s =>
    match (if left = 0 then none else readSeparator ':' index readIpv4 s) with
    | some ([a, b, c, d], rest) => ([256 * a + b, 256 * c + d], true, rest)
    | _ =>
      match readSeparator ':' index (readNumber 16 4 65535 true) s with
      | some (group, rest) =>
        let (groups, ipv4, rest) := readGroups left (index + 1) rest
        (group :: groups, ipv4, rest)
      | none => ([], false, s)

/-- The IPv6 part of `str::parse::<IpAddr>`. -/
def readIpv6 (s : Chars) : Option (List Nat × Chars) :=
  let (head, ipv4, rest) := readGroups 8 0 s
  if head.length = 8 then some (head, rest)
  else if ipv4 then none
  else match rest with
    | ':' :: ':' :: rest =>
      let (tail, _, rest) := readGroups (7 - head.length) 0 rest
      some (head ++ List.replicate (8 - head.length - tail.length) 0 ++ tail, rest)
    | _ => none

/-- 127.0.0.0/8 or `::1`. -/
def parsesAsLoopback (s : Chars) : Bool :=
  match readIpv4 s with
  | some (octets, rest) => rest.isEmpty && octets.head? = some 127
  | none =>
    match readIpv6 s with
    | some (groups, rest) => rest.isEmpty && groups = [0, 0, 0, 0, 0, 0, 0, 1]
    | none => false

def isBracket (c : Char) : Bool := c = '[' || c = ']'

/-- `trim_matches` of brackets. -/
def trimBrackets (s : Chars) : Chars := ((s.dropWhile isBracket).reverse.dropWhile isBracket).reverse

/-- `host_is_loopback` (`lib.rs:500-506`). -/
def hostIsLoopback (host : Chars) : Bool := lower host = "localhost".toList || parsesAsLoopback (trimBrackets host)

/-- The location alone is trusted with local paths. -/
def VgiLocation.isLocal : VgiLocation → Bool
  | .subprocess _ | .unix _ | .launch _ => true
  | .http url => (httpHost url).any hostIsLoopback
  | .tcp host _ => hostIsLoopback host

/-! ## Connections -/

inductive ConnectionAuth
  | none
  | interactive
  | bearer (token : Chars)
  | refresh (token : Chars)
  deriving DecidableEq

/-- `none` leaves the pool's default. -/
inductive ConnectionPool
  | disabled
  | configured (maxIdle idleTimeout : Option Nat)
  deriving DecidableEq

/-- `VgiConnection` (`lib.rs:129-162`): what an ATTACH decides of it. -/
structure VgiConnection where
  location : VgiLocation
  pool : ConnectionPool
  cacheEnabled : Bool := true
  allowLocalFormatPaths : Bool := false
  workerDebug : Bool := false
  launcherIdleTimeout : Option Nat := none
  launcherStateDir : Option Chars := none
  rpcTimeout : Option Nat := none
  auth : ConnectionAuth
  deriving DecidableEq

/-- `VgiConnection::allows_local_format_paths` (`lib.rs:474-485`). -/
def VgiConnection.allowsLocalFormatPaths (c : VgiConnection) : Bool := c.allowLocalFormatPaths || c.location.isLocal

/-- `AttachSpec` (`session.rs:2016-2025`). -/
structure AttachSpec where
  catalog : Chars
  name : Chars
  location : Chars
  options : Chars → Option Chars

namespace AttachSpec

variable (spec : AttachSpec)

/-- `bool_option` (`session.rs:2092-2101`). -/
def boolOption (name : String) (default : Bool) : Except String Bool :=
  match spec.options name.toList with
  | none => .ok default
  | some raw => do
    match parseBool (← optionString raw) with
    | some value => .ok value
    | none => .error s!"ATTACH option `{name}` must be true or false"

/-- `integer_option` (`session.rs:2102-2113`). -/
def integerOption (name : String) : Except String (Option Nat) :=
  match spec.options name.toList with
  | none => .ok none
  | some raw => do
    match parseU64 (← optionString raw) with
    | some value => .ok (some value)
    | none => .error s!"ATTACH option `{name}` must be a non-negative integer"

def stringOption (name : String) : Except String (Option Chars) :=
  match spec.options name.toList with
  | none => .ok none
  | some raw => (optionString raw).map some

/-- The option `rpc_timeout` (`session.rs:2117-2124`), in seconds. -/
def rpcTimeoutOption : Except String (Option Nat) := do
  match ← spec.integerOption "rpc_timeout" with
  | some 0 => .error "ATTACH option `rpc_timeout` must be greater than zero"
  | timeout => .ok timeout

def isLaunch : VgiLocation → Bool
  | .launch _ => true
  | _ => false

def isHttp : VgiLocation → Bool
  | .http _ => true
  | _ => false

/-- The two launcher options, refused for any other location. -/
def launcherOptions (location : VgiLocation) : Except String (Option Nat × Option Chars) := do
  let idleTimeout ← spec.integerOption "launcher_idle_timeout"
  let stateDir ← spec.stringOption "launcher_state_dir"
  if stateDir = some [] then .error "launcher_state_dir, if set, must not be empty"
  else if (idleTimeout.isSome || stateDir.isSome) && !isLaunch location then
    .error "launcher_idle_timeout / launcher_state_dir are only valid for `launch:` LOCATIONs"
  else .ok (idleTimeout, stateDir)

/-- The options of the pool (`session.rs:2142-2155`); the later ones are read only if it is used. -/
def poolOption : Except String ConnectionPool := do
  if ← spec.boolOption "pool" true then
    let maxIdle ← spec.integerOption "pool_max"
    let idleTimeout ← spec.integerOption "pool_timeout"
    .ok (.configured maxIdle idleTimeout)
  else .ok .disabled

/-- The token of the ATTACH (`session.rs:2168-2191`); a location that takes none refuses it. -/
def authOption (location : VgiLocation) : Except String ConnectionAuth := do
  let bearer ← spec.stringOption "bearer_token"
  let refresh ← spec.stringOption "oauth_refresh_token"
  match bearer, refresh with
  | some _, some _ => .error "cannot specify both bearer_token and oauth_refresh_token"
  | some token, none =>
    if isHttp location then .ok (.bearer token) else .error "VGI authentication requires an HTTP(S) LOCATION"
  | none, some token =>
    if isHttp location then .ok (.refresh token) else .error "VGI authentication requires an HTTP(S) LOCATION"
  | none, none => .ok (if isHttp location then .interactive else .none)

/-- `AttachSpec::connection` (`session.rs:2088-2193`), each option in the order in which it may fail. -/
def connection (parse : Chars → Except String VgiLocation) : Except String VgiConnection := do
  let location ← parse spec.location
  let workerDebug ← spec.boolOption "worker_debug" false
  let rpcTimeout ← spec.rpcTimeoutOption
  let (launcherIdleTimeout, launcherStateDir) ← spec.launcherOptions location
  let pool ← spec.poolOption
  let cacheEnabled ← spec.boolOption "cache" true
  let allowLocalFormatPaths ← spec.boolOption "allow_local_format_paths" false
  let auth ← spec.authOption location
  .ok { location, pool, cacheEnabled, allowLocalFormatPaths, workerDebug, launcherIdleTimeout, launcherStateDir
        rpcTimeout, auth }

end AttachSpec

/-! ## Companions -/

structure AttachCatalogInfo where
  target : Chars
  name : Chars
  dbType : Chars
  secretRef : Chars := []
  options : List (Chars × Chars) := []
  required : Bool

namespace AttachCatalogInfo

variable (info : AttachCatalogInfo)

/-- The options after `?` in the target. -/
def embedded : List (Chars × Chars) :=
  match splitOnce '?' info.target with
  | none => []
  | some (_, query) => ((split '&' query).filter (!·.isEmpty)).filterMap (splitOnce '=')

def catalog : Chars := ((splitOnce '?' info.target).map (·.1)).getD info.target

/-- `collect`: the last pair of a name. -/
def listed : Chars → Option Chars :=
  info.options.foldl (fun options pair => Function.update options (lower pair.1) (some (sqlString pair.2))) fun _ => none

/-- `entry(..).or_insert_with(..)`: the first of a name that is not listed. -/
def merged : Chars → Option Chars :=
  info.embedded.foldl
    (fun options pair => if (options (lower pair.1)).isSome then options
      else Function.update options (lower pair.1) (some (sqlString pair.2)))
    info.listed

/-- What the worker says about an option: the last of its list, else the first in the target. -/
def supplied (name : Chars) : Option Chars :=
  ((info.options.reverse.find? (lower ·.1 = name)).or (info.embedded.find? (lower ·.1 = name))).map (·.2)

theorem foldl_update_last (pairs : List (Chars × Chars)) (options : Chars → Option Chars) (name : Chars) :
    pairs.foldl (fun options pair => Function.update options (lower pair.1) (some (sqlString pair.2))) options name =
      ((pairs.reverse.find? (lower ·.1 = name)).map fun pair => sqlString pair.2).or (options name) := by
  induction pairs generalizing options with
  | nil => simp
  | cons pair pairs ih =>
    rw [List.foldl_cons, ih, List.reverse_cons, List.find?_append]
    by_cases hname : lower pair.1 = name
    · simp only [hname, Function.update_self, List.find?_cons, decide_true, Option.map_or, Option.map_some]
      cases (pairs.reverse.find? (lower ·.1 = name)).map fun pair => sqlString pair.2 <;> rfl
    · simp [hname, Function.update_of_ne (Ne.symm hname)]

theorem foldl_insert_first (pairs : List (Chars × Chars)) (options : Chars → Option Chars) (name : Chars) :
    pairs.foldl (fun options pair => if (options (lower pair.1)).isSome then options
        else Function.update options (lower pair.1) (some (sqlString pair.2))) options name =
      (options name).or ((pairs.find? (lower ·.1 = name)).map fun pair => sqlString pair.2) := by
  induction pairs generalizing options with
  | nil => simp
  | cons pair pairs ih =>
    rw [List.foldl_cons, ih]
    by_cases hsome : (options (lower pair.1)).isSome
    · rw [if_pos hsome]
      by_cases hname : lower pair.1 = name
      · obtain ⟨value, hvalue⟩ := Option.isSome_iff_exists.1 hsome
        rw [hname] at hvalue
        simp [hvalue]
      · simp [hname]
    · rw [if_neg hsome]
      by_cases hname : lower pair.1 = name
      · rw [hname] at hsome
        simp [hname, Option.not_isSome_iff_eq_none.1 hsome]
      · simp [hname, Function.update_of_ne (Ne.symm hname)]

/-- An option of a companion is the quoted text its worker supplied. -/
theorem merged_eq_supplied (name : Chars) : info.merged name = (info.supplied name).map sqlString := by
  rw [merged, foldl_insert_first, listed, foldl_update_last, supplied]
  simp only [Option.or_none, Option.map_map, Option.map_or]
  rfl

end AttachCatalogInfo

/-- The location the worker supplies, else that of the parent. -/
def companionLocation (parent : AttachSpec) (info : AttachCatalogInfo) : Except String Chars :=
  match info.merged "location".toList with
  | some raw => optionString raw
  | none => .ok parent.location

theorem companionLocation_eq (parent : AttachSpec) (info : AttachCatalogInfo) :
    companionLocation parent info = .ok ((info.supplied "location".toList).getD parent.location) := by
  rw [companionLocation, AttachCatalogInfo.merged_eq_supplied]
  cases info.supplied "location".toList with
  | none => rfl
  | some text => exact optionString_sqlString text

/-- `companion_spec` (`session.rs:2272-2323`): the ATTACH of a companion; none where its type is another's. -/
def companionSpec (parent : AttachSpec) (info : AttachCatalogInfo) : Except String (Option AttachSpec) :=
  let name := String.ofList info.name
  if lower info.dbType ≠ "vgi".toList then
    if info.required then
      let dbType := String.ofList info.dbType
      .error s!"required companion `{name}` has type `{dbType}`; vgi-datafusion only attaches VGI companions"
    else .ok none
  else if !info.secretRef.isEmpty then
    let secretRef := String.ofList info.secretRef
    .error (s!"VGI companion `{name}` requires secret reference `{secretRef}`; " ++
      "companion secrets are not exposed by DataFusion")
  else do
    let location ← companionLocation parent info
    .ok (some {
      catalog := info.catalog
      name := if info.name.isEmpty then info.catalog else info.name
      location
      options := Function.update info.merged "location".toList none })

end VgiDatafusion
