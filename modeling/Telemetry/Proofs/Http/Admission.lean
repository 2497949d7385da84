import Telemetry.Http.Server
import Telemetry.Store.Memory

/-!
# Clients outside the subnet

A server with a subnet refuses a client whose header names no address in it. The refusal is decided by
the headers alone and leaves the world as it is, so a sequence of requests goes as if the refused
ones had never come. What happens around the server between two requests, the clock above all, is part
of the sequence and stays.
-/

namespace Telemetry.Http

/-- The first value of a header whose name is given in small letters. -/
def Request.HasFirst (request : Request) (name value : String) : Prop :=
  ∃ before p after, request.headers = before ++ p :: after ∧ lowered p.1 = name.toList ∧
    p.2 = value ∧ ∀ q ∈ before, lowered q.1 ≠ name.toList

/-- The client of a request names no address in a subnet: it names none at all, its value cannot be
read, it is not the text of an address, or the address is not in the subnet. -/
inductive Outsider (subnet : Net.Subnet) (request : Request) : Prop where
  | absent (h : ∀ p ∈ request.headers, lowered p.1 ≠ "x-real-ip".toList)
  | unreadable (value : String) (h : request.HasFirst "x-real-ip" value)
    (hvalue : ∃ c ∈ value.toList, isReadable c = false)
  | malformed (value : String) (h : request.HasFirst "x-real-ip" value)
    (hvalue : Net.IpAddress.parse? (Text.trimBlanks value.toList) = none)
  | outside (value : String) (address : Net.IpAddress) (h : request.HasFirst "x-real-ip" value)
    (hvalue : Net.IpAddress.parse? (Text.trimBlanks value.toList) = some address)
    (haddress : subnet.contains address = false)

/-! ### The header of a client -/

theorem Request.header?_of_absent {request : Request} {name : String}
    (h : ∀ p ∈ request.headers, lowered p.1 ≠ name.toList) : request.header? name = none := by
  have hnone : (request.headers.find? fun p => lowered p.1 == name.toList) = none := by
    rw [List.find?_eq_none]
    intro p hp hname
    exact h p hp (beq_iff_eq.1 hname)
  rw [header?, hnone]

theorem Request.header?_of_hasFirst {request : Request} {name value : String}
    (h : request.HasFirst name value) :
    request.header? name = if value.toList.all isReadable then some value else none := by
  obtain ⟨before, p, after, hheaders, hname, rfl, hbefore⟩ := h
  have hfirst : (request.headers.find? fun p => lowered p.1 == name.toList) = some p := by
    rw [List.find?_eq_some_iff_append]
    refine ⟨beq_iff_eq.2 hname, before, after, hheaders, ?_⟩
    intro q hq
    simp [hbefore q hq]
  rw [header?, hfirst]

theorem Request.absent_or_hasFirst (request : Request) (name : String) :
    (∀ p ∈ request.headers, lowered p.1 ≠ name.toList) ∨ ∃ value, request.HasFirst name value := by
  cases hfind : request.headers.find? fun p => lowered p.1 == name.toList with
  | none =>
    rw [List.find?_eq_none] at hfind
    left
    intro p hp hname
    exact hfind p hp (beq_iff_eq.2 hname)
  | some p =>
    obtain ⟨hname, before, after, hheaders, hbefore⟩ := List.find?_eq_some_iff_append.1 hfind
    right
    refine ⟨p.2, before, p, after, hheaders, beq_iff_eq.1 hname, rfl, ?_⟩
    intro q hq hsame
    have hother := hbefore q hq
    simp [hsame] at hother

theorem outsider_iff {subnet : Net.Subnet} {request : Request} :
    Outsider subnet request ↔ subnet.allows (request.header? "x-real-ip") = false := by
  constructor
  · intro h
    cases h with
    | absent h =>
      rw [Request.header?_of_absent h]
      rfl
    | unreadable value h hvalue =>
      obtain ⟨c, hc, hunreadable⟩ := hvalue
      have hall : ¬ value.toList.all isReadable = true := by
        intro hall
        rw [List.all_eq_true.1 hall c hc] at hunreadable
        cases hunreadable
      rw [Request.header?_of_hasFirst h, if_neg hall]
      rfl
    | malformed value h hvalue =>
      rw [Request.header?_of_hasFirst h]
      split
      · simp [Net.Subnet.allows, hvalue]
      · rfl
    | outside value address h hvalue haddress =>
      rw [Request.header?_of_hasFirst h]
      split
      · simp [Net.Subnet.allows, hvalue, haddress]
      · rfl
  · intro h
    obtain habsent | ⟨value, hfirst⟩ := request.absent_or_hasFirst "x-real-ip"
    · exact .absent habsent
    · rw [Request.header?_of_hasFirst hfirst] at h
      cases hparse : Net.IpAddress.parse? (Text.trimBlanks value.toList) with
      | none => exact .malformed value hfirst hparse
      | some address =>
        by_cases hall : value.toList.all isReadable = true
        · rw [if_pos hall] at h
          simp only [Net.Subnet.allows, Option.bind_some, hparse] at h
          exact .outside value address hfirst hparse h
        · obtain ⟨c, hc, hunreadable⟩ := List.all_eq_false.1 (Bool.not_eq_true _ ▸ hall)
          exact .unreadable value hfirst ⟨c, hc, Bool.not_eq_true _ ▸ hunreadable⟩

instance (subnet : Net.Subnet) (request : Request) : Decidable (Outsider subnet request) :=
  decidable_of_iff _ outsider_iff.symm

/-! ### Sequences of requests -/

/-- What comes to a server: a request, or a change of its surroundings. -/
inductive Happening where
  | asked (request : Request)
  | around (change : Host → Host)

/-- Whether a happening is anything but a request from outside a subnet. -/
def Happening.isAdmitted (subnet : Net.Subnet) : Happening → Bool
  | .asked request => ¬ Outsider subnet request
  | .around _ => true

namespace Server

section

variable {σ : Type} [Repository σ]

/-- Answers the requests of a sequence in turn; each response stands with its request. -/
def run (server : Server) : List Happening → World σ → List (Request × Response) × World σ
  | [], world => ([], world)
  | .asked request :: happenings, world =>
    let (response, after) := server.handle request world
    let (served, last) := server.run happenings after
    ((request, response) :: served, last)
  | .around change :: happenings, world =>
    server.run happenings { world with host := change world.host }

end

def forbidden (request : Request) : Response :=
  finish (Route.ofPath? request.path) request.method (.refusal 403)

theorem status_forbidden (request : Request) : (forbidden request).status = 403 := by
  unfold forbidden finish
  cases Route.ofPath? request.path with
  | none => rfl
  | some route =>
    dsimp only
    split
    · split <;> rfl
    · rfl

variable {σ : Type} [Repository σ] {server : Server} {subnet : Net.Subnet}

theorem handle_outsider (hsubnet : server.subnet = some subnet) {request : Request}
    (h : Outsider subnet request) (world : World σ) :
    server.handle request world = (forbidden request, world) := by
  have hadmits : server.admits request = false := by
    simp only [admits, hsubnet]
    exact outsider_iff.1 h
  simp only [handle, hadmits]
  rfl

/-- What is answered to a refused request is answered to it with any other body, and by any other
server and store behind the same subnet. -/
theorem handle_refused_alike {request : Request} (h : Outsider subnet request) {τ : Type}
    [Repository τ] {other : Server} (hother : other.subnet = some subnet) (body : Bytes)
    (elsewhere : World τ) :
    (other.handle { request with body } elsewhere).1 = forbidden request := by
  have hsame : Outsider subnet { request with body } :=
    outsider_iff.2 (outsider_iff.1 h : subnet.allows (request.header? "x-real-ip") = false)
  rw [handle_outsider hother hsame]
  rfl

theorem run_asked (request : Request) (happenings : List Happening) (world : World σ) :
    server.run (.asked request :: happenings) world =
      ((request, (server.handle request world).1) ::
          (server.run happenings (server.handle request world).2).1,
        (server.run happenings (server.handle request world).2).2) := rfl

theorem run_refused (hsubnet : server.subnet = some subnet) {happenings : List Happening}
    {world : World σ} {served : Request × Response}
    (hserved : served ∈ (server.run happenings world).1) (h : Outsider subnet served.1) :
    served.2 = forbidden served.1 := by
  induction happenings generalizing world with
  | nil => cases hserved
  | cons happening happenings ih =>
    cases happening with
    | asked request =>
      rw [run_asked] at hserved
      cases hserved with
      | head => exact congrArg Prod.fst (handle_outsider hsubnet h world)
      | tail _ hlater => exact ih hlater
    | around change => exact ih hserved

/-- The sequence without the refused requests is answered as the whole one is, and leads to the same
world. -/
theorem run_admitted (hsubnet : server.subnet = some subnet) (happenings : List Happening)
    (world : World σ) :
    server.run (happenings.filter (·.isAdmitted subnet)) world =
      ((server.run happenings world).1.filter fun served => ¬ Outsider subnet served.1,
        (server.run happenings world).2) := by
  induction happenings generalizing world with
  | nil => rfl
  | cons happening happenings ih =>
    cases happening with
    | asked request =>
      by_cases h : Outsider subnet request
      · have hremoved : ¬ (Happening.asked request).isAdmitted subnet = true := by
          simp [Happening.isAdmitted, h]
        rw [List.filter_cons_of_neg hremoved, run_asked, handle_outsider hsubnet h,
          List.filter_cons_of_neg (by simp [h])]
        exact ih world
      · have hkept : (Happening.asked request).isAdmitted subnet = true := by
          simp [Happening.isAdmitted, h]
        rw [List.filter_cons_of_pos hkept, run_asked, run_asked, ih,
          List.filter_cons_of_pos (by simp [h])]
    | around change =>
      rw [List.filter_cons_of_pos (by rfl)]
      exact ih { world with host := change world.host }

/-- **Clients outside the subnet do not exist for the store.** Each of their requests is answered with
a 403 in which nothing of the store, the secrets or the body shows, and the other requests are
answered, and the world is left, as if those had never come. -/
theorem outsiders_leave_no_trace (hsubnet : server.subnet = some subnet)
    (happenings : List Happening) (world : World σ) :
    (∀ served ∈ (server.run happenings world).1, Outsider subnet served.1 →
      served.2.status = 403 ∧
      ∀ (τ : Type) [Repository τ] (other : Server) (body : Bytes) (elsewhere : World τ),
        other.subnet = some subnet →
        (other.handle { served.1 with body } elsewhere).1 = served.2) ∧
    server.run (happenings.filter (·.isAdmitted subnet)) world =
      ((server.run happenings world).1.filter fun served => ¬ Outsider subnet served.1,
        (server.run happenings world).2) := by
  refine ⟨?_, run_admitted hsubnet happenings world⟩
  intro served hserved h
  have hresponse := run_refused hsubnet hserved h
  constructor
  · rw [hresponse, status_forbidden]
  · intro τ _ other body elsewhere hother
    rw [hresponse, handle_refused_alike h hother]

/-- A stranger asks for a page and sends a counter between two updates of a friend. -/
theorem outsiders_leave_no_trace_between :
    let server : Server := ⟨some "secret", none, some (.v4 0x0a000000 8)⟩
    let friend : Request := ⟨"POST", "/update/counter/a/1", [("X-Real-IP", "10.1.2.3")], []⟩
    let stranger : Request := ⟨"POST", "/update/counter/a/5", [("x-real-ip", "11.1.2.3")], []⟩
    let nobody : Request := ⟨"GET", "/", [], []⟩
    let world : World MemoryStore := ⟨MemoryStore.empty, ⟨[], Counters.empty, 0⟩⟩
    let served := (server.run [.asked friend, .asked stranger, .asked nobody, .asked friend] world).1
    Outsider (.v4 0x0a000000 8) stranger ∧ Outsider (.v4 0x0a000000 8) nobody ∧
      ¬ Outsider (.v4 0x0a000000 8) friend ∧
      server.run [.asked friend, .asked friend] world =
        (served.filter fun p => ¬ Outsider (.v4 0x0a000000 8) p.1,
          (server.run [.asked friend, .asked stranger, .asked nobody, .asked friend] world).2) := by
  intro server friend stranger nobody world served
  have hstranger : Outsider (.v4 0x0a000000 8) stranger := by decide +kernel
  have hnobody : Outsider (.v4 0x0a000000 8) nobody := by decide +kernel
  have hfriend : ¬ Outsider (.v4 0x0a000000 8) friend := by decide +kernel
  have hsubnet : server.subnet = some (.v4 0x0a000000 8) := rfl
  have hrun := (outsiders_leave_no_trace hsubnet
    [.asked friend, .asked stranger, .asked nobody, .asked friend] world).2
  simp only [List.filter_cons, List.filter_nil, Happening.isAdmitted, hstranger, hnobody, hfriend,
    not_true_eq_false, not_false_eq_true, decide_true, decide_false, if_true] at hrun
  exact ⟨hstranger, hnobody, hfriend, hrun⟩

end Server

end Telemetry.Http
