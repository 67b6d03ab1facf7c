import Mathlib.Algebra.Ring.Nat
import Soveren.GitHub.Reads

/-! What the transport of the connector makes of a response: its status, its body up to 8 MiB, and the JSON
that the body holds. -/
namespace Soveren.GitHub

/-- What comes of a request. Of a body we keep the sizes of the chunks in which it arrives and what
`json.loads` makes of it. -/
inductive Response where
  | timedOut
  | clientError
  | answered (status : ℕ) (rateLimited : Bool) (chunks : List ℕ) (body : Option Json)

/-- The loop of `_request` over the chunks of a body: the bytes that are read. -/
def gather (data : ℕ) : List ℕ → Except GitHubErrorCode ℕ
  | [] => .ok data
  | chunk :: chunks =>
    if 8 * 1024 * 1024 < data + chunk then raise .tooLarge else gather (data + chunk) chunks

/-- `_request`, while the connector is open. -/
def request : Response → Except GitHubErrorCode Json
  | .timedOut => raise .timeout
  | .clientError => raise .unavailable
  | .answered status rateLimited chunks body => do
    require (status ≠ 401) .auth
    require (status ≠ 429 && !(status = 403 && rateLimited)) .rateLimited
    require (status ≠ 403) .forbidden
    require (status ≠ 404) .notFound
    require (status < 500) .unavailable
    require (status = 200 || status = 201) .protocol
    let _ ← gather 0 chunks
    match body with
    | some payload => .ok payload
    | none => raise .protocol

/-- `get`, while the connector is open and finds a token: a request whose token is refused is made once more. -/
def get (first second : Response) : Except GitHubErrorCode Json :=
  match request first with
  | .error .auth => request second
  | result => result

/-- The operations of a connector whose provider answers each request the same way every time. -/
def served (provider : Endpoint → Response) (known : (o : Op) → Res o) : (o : Op) → Res o
  | .get endpoint => (get (provider endpoint) (provider endpoint)).mapError .github
  | o => known o

/-- The bytes of a body. -/
def Response.size : Response → ℕ
  | .answered _ _ chunks _ => chunks.sum
  | _ => 0

def Response.Short (r : Response) : Prop := r.size ≤ 8 * 1024 * 1024

instance (r : Response) : Decidable r.Short := inferInstanceAs (Decidable (_ ≤ _))

/-- A response brings a value. -/
def Response.Holds (payload : Json) (r : Response) : Prop :=
  ∃ status rateLimited chunks, r = .answered status rateLimited chunks (some payload) ∧
    (status = 200 ∨ status = 201)

theorem gather_eq (data : ℕ) (chunks : List ℕ) :
    gather data chunks =
      if chunks ≠ [] ∧ 8 * 1024 * 1024 < data + chunks.sum then raise .tooLarge else .ok (data + chunks.sum) := by
  induction chunks generalizing data with
  | nil => simp [gather]
  | cons chunk chunks ih =>
    rw [gather, ih, List.sum_cons, ← Nat.add_assoc]
    by_cases hchunk : 8 * 1024 * 1024 < data + chunk
    · rw [if_pos hchunk, if_pos ⟨List.cons_ne_nil _ _, by omega⟩]
    · rw [if_neg hchunk]
      by_cases hnil : chunks = []
      · simp [hnil]
        omega
      · simp [hnil]

section Served

variable {provider : Endpoint → Response} {known : (o : Op) → Res o} {endpoint : Endpoint} {payload : Json}

theorem request_of_holds {r : Response} (h : r.Holds payload) :
    request r = if r.Short then .ok payload else raise .tooLarge := by
  obtain ⟨status, rateLimited, chunks, rfl, hstatus⟩ := h
  have hgather := gather_eq 0 chunks
  rw [Nat.zero_add] at hgather
  by_cases hshort : (Response.answered status rateLimited chunks (some payload)).Short
  · have hsum : ¬ 8 * 1024 * 1024 < chunks.sum := Nat.not_lt.mpr hshort
    rw [if_neg fun h => hsum h.2] at hgather
    rw [if_pos hshort]
    obtain rfl | rfl := hstatus <;> simp [request, require, hgather, bind, Except.bind]
  · have hsum : 8 * 1024 * 1024 < chunks.sum := Nat.lt_of_not_le hshort
    have hchunks : chunks ≠ [] := by
      rintro rfl
      exact absurd hsum (by simp)
    rw [if_pos ⟨hchunks, hsum⟩] at hgather
    rw [if_neg hshort]
    obtain rfl | rfl := hstatus <;> simp [request, require, hgather, raise, bind, Except.bind]

theorem get_twice (r : Response) : get r r = request r := by
  unfold get
  split
  · rfl
  · rfl

theorem served_request :
    served provider known (.get endpoint) = (request (provider endpoint)).mapError .github :=
  congrArg (Except.mapError Failure.github) (get_twice (provider endpoint))

theorem served_get (hholds : (provider endpoint).Holds payload) (hshort : (provider endpoint).Short) :
    served provider known (.get endpoint) = .ok payload :=
  served_request.trans (congrArg _ ((request_of_holds hholds).trans (if_pos hshort)))

/-- A longer response is refused, whatever it holds. -/
theorem served_tooLarge (hholds : (provider endpoint).Holds payload) (hlong : ¬ (provider endpoint).Short) :
    served provider known (.get endpoint) = .error (.github .tooLarge) :=
  served_request.trans (congrArg _ ((request_of_holds hholds).trans (if_neg hlong)))

end Served

end Soveren.GitHub
