import TaskScheduler.Library.Text

namespace Scheduler

-- A request as far as it can show who makes it. The names of headers are in lower case, and a value
-- is `none` if it is not a text.
structure Request where
  path    : String
  headers : List (String × Option String)

namespace Request

variable (request : Request)

def header (name : String) : Option String :=
  (request.headers.lookup name).join

def bearer : Option String := do
  let value ← request.header "authorization"
  return .ofList (← value.toList.dropPrefix? "Bearer ".toList)

def cookie (name : String) : Option String := do
  let value ← request.header "cookie"
  return .ofList (← (value.toList.splitOn ';').findSome? fun part =>
    (Text.trim Char.isWhitespace part).dropPrefix? (name ++ "=").toList)

-- The headers that get from an agent's proxy to the coordinator.
def forwarded : List String :=
  ["content-type", "cookie", "if-match", "idempotency-key", "x-request-id"]

-- What `proxy` of an agent sends to the coordinator.
def proxy : Request where
  path    := request.path
  headers := forwarded.filterMap fun name => (request.header name).map fun value =>
    (name, some value)

def isApi : Bool :=
  "/api/".toList.isPrefixOf request.path.toList

-- The coordinator vouches for what is for its API.
def credentials (adminToken : String) : List (String × Option String) :=
  if request.isApi then [("authorization", some ("Bearer " ++ adminToken))] else []

-- What `manage` sends to the coordinator's own router.
def manage (adminToken : String) : Except String Request :=
  if !"/".toList.isPrefixOf request.path.toList || "//".toList.isPrefixOf request.path.toList then
    .error "management path must be local"
  else
    .ok { request with
      headers := request.headers.filter (·.1 ∈ forwarded) ++ request.credentials adminToken
    }

-- The administrator's token is kept as a hash.
def verifyBearer (adminToken : String) : Bool :=
  request.bearer = some adminToken

variable {request} {received : Request} {adminToken name : String}

theorem lookup_forwarded {names : List String} {f : String → Option String} :
    (names.filterMap fun n => (f n).map fun value => (n, some value)).lookup name =
      if name ∈ names then (f name).map some else none := by
  induction names
  case nil => rfl
  case cons n names hi =>
    by_cases hn : name = n
    · subst hn
      cases hf : f name <;> simp [hf, hi]
    · cases hf : f n <;> simp [hf, hi, hn, List.lookup_cons, beq_eq_false_iff_ne.mpr hn]

-- Of the client's headers only those on the list get through, and the token is the coordinator's.
theorem header_manage (h : request.proxy.manage adminToken = .ok received) :
    received.header name = ((if name ∈ forwarded then (request.header name).map some else none).or
      ((request.credentials adminToken).lookup name)).join := by
  unfold manage at h
  split at h
  case isTrue => contradiction
  case isFalse =>
    cases h
    have hf : request.proxy.headers.filter (·.1 ∈ forwarded) = request.proxy.headers := by
      refine List.filter_eq_self.mpr fun x hx => ?_
      have ⟨n, hn, hx⟩ := List.mem_filterMap.mp hx
      have ⟨_, _, hx⟩ := Option.map_eq_some_iff.mp hx
      simp [← hx, hn]
    simp only [header, hf, List.lookup_append]
    rw [proxy, lookup_forwarded]
    rfl

theorem cookie_manage (h : request.proxy.manage adminToken = .ok received) :
    received.cookie name = request.cookie name := by
  have hc : received.header "cookie" = request.header "cookie" := by
    rw [header_manage h, if_pos (by decide), credentials]
    cases request.header "cookie" <;> cases request.isApi <;> rfl
  rw [cookie, cookie, hc]

theorem bearer_manage (h : request.proxy.manage adminToken = .ok received) :
    received.bearer = if request.isApi then some adminToken else none := by
  rw [bearer, header_manage h, if_neg (by decide), credentials]
  cases request.isApi
  case false => rfl
  case true =>
    have hd : ("Bearer " ++ adminToken).toList.dropPrefix? "Bearer ".toList =
        some adminToken.toList := by
      rw [String.toList_append]
      exact List.dropPrefix?_append_of_beq _ (beq_self_eq_true _)
    change (("Bearer " ++ adminToken).toList.dropPrefix? _).bind _ = _
    rw [hd]
    simp

-- The cookies that come by way of an agent are those of the client. The API, which asks for the
-- administrator's token, is open to whatever comes by way of an agent.

-- A guest of an agent, with a session and without a token.
def guest : Request where
  path    := "/api/v1/runs"
  headers := [("cookie", some "theme=dark; scheduler_session=one")]

end Request

end Scheduler
