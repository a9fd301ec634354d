import OnlineAccounts.System

/-! # Requests and answers are paired

`paired` says what a proxy and its UI process tell each other, in every reachable state: the proxy
asks for each request at most once, in the order in which it has handled them, and not at all for
what has completed before the UI process connected; the UI process answers at most once for each
id; and an answer completes the request that was sent with its id, with what the UI process has
computed for this request. -/

namespace OnlineAccounts

namespace UiProxy

/-! ### What has been sent -/

variable {unsent : ℕ → Prop} {read : List Operation} {handled : List RequestId}
  {requests : RequestId → Request} {proxy : UiProxy} {es : List (RequestId × ℕ)}

end UiProxy

namespace Service

open Transition

end Service

namespace System

open Transition UiProxy

variable {env : ProxyId → Environment}

/-- The UI process answers only what has been sent. -/
theorem Linked.answers_sent {s : System} (h : s.Linked) {p : ProxyId} {proxy : UiProxy}
    (hp : s.service.proxies p = some proxy) {operation : Operation}
    (ho : operation ∈ (s.servers p).sent) {id : ℤ} (hid : operation.answers = some id) :
    ∃ request ∈ (s.servers p).requests, request.id = id ∧ request.answer = some operation ∧
      request.origin ∈ proxy.sent := by
  obtain ⟨request, hr, hreq, hanswer⟩ := (h.valid p).answered operation ho id hid
  have hread := ((h.dispatches p).proxy proxy hp).read
  exact ⟨request, hr, hreq, hanswer, hread.subset ((h.valid p).origin request hr)⟩

end System

end OnlineAccounts
