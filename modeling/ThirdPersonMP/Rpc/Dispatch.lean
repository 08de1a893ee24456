import ThirdPersonMP.Rpc.Outstanding

/-!
# Dispatch of a request

The service type and the method index of a request come off the wire, any two numbers.
`serviceHandleRequestMsg` means to check both: `GetServicePtr` asks `EServiceType_IsValid`
before it indexes `m_arrayService`, and the pointer that `ServiceDescriptor::method`
returns is compared with null. Neither check is of the bound that counts. The valid values
include `SERVICETYPE_MAX`, one past the end of the array, where `at` throws; and `method`
computes `methods_ + index` unchecked, which is never null.

`staysInTables_iff` — a request is refused as it should be, and the tables are read inside
their bounds, exactly when its service type is in the array if it is valid, and its method
index is one of the service's if the service is registered.
-/

namespace ThirdPersonMP.Rpc

open Base Library

variable {M D : Type*}

/-- An index of something with this many elements. -/
def InRange (index : ℤ) (count : ℕ) : Prop := 0 ≤ index ∧ index < count

instance (index : ℤ) (count : ℕ) : Decidable (InRange index count) :=
  inferInstanceAs (Decidable (0 ≤ index ∧ index < count))

section

variable [DecidableEq D] (g : Generated D)

/-- The service is one of those that `registerService` has put into `m_arrayService`. -/
def Registered (serviceType : ℤ) (service : Service D) : Prop :=
  0 ≤ serviceType ∧ (registerService g).mArrayService[serviceType.toNat]? = some (some service)

/-- The index that `m_arrayService.at` is called with, if it is called. -/
def atIndex (serviceType : ℤ) : Option ℤ :=
  if g.eServiceTypeIsValid serviceType then some serviceType else none

/-- What `ServiceDescriptor::method` is called with, if it is called: the index, and the
`method_count()` of the descriptor. -/
def methodIndex (message : RpcMessage) : Option (ℤ × ℕ) :=
  match (registerService g).getServicePtr g message.service with
  | some (some service) => some (message.method, service.methods.length)
  | _ => none

/-- The request is answered with this error, once, and no method is called. -/
def Refused (P : Protobuf M D) (p : Peer M) (message : RpcMessage) (handler : Handler M)
    (errorCode : ErrorCode) : Prop :=
  ∃ p' reply, p.serviceHandleRequestMsg P g message handler = some p' ∧ p'.out = p.out ++ [reply] ∧
    reply.type = .response ∧ reply.id = message.id ∧ reply.error = errorCode ∧
    callIds p'.trace = callIds p.trace

/-- The dispatch of a request stays within the tables. -/
structure StaysInTables (P : Protobuf M D) (p : Peer M) (message : RpcMessage)
    (handler : Handler M) : Prop where
  /-- A service that is not registered. -/
  noService : (∀ service, ¬ Registered g message.service service) →
    Refused g P p message handler .noService
  /-- An index that is of no method of the service. -/
  noMethod : ∀ service, Registered g message.service service →
    ¬ InRange message.method service.methods.length → Refused g P p message handler .noMethod
  /-- `m_arrayService` is indexed below `SERVICETYPE_MAX`. -/
  at_ : ∀ index ∈ atIndex g message.service, InRange index g.serviceTypeMax
  /-- The methods of a descriptor are indexed below `method_count()`. -/
  method : ∀ call ∈ methodIndex g message, InRange call.1 call.2

/-- The condition: a valid service type is one of the array, and the index is of a method
of the service, if the service is registered. -/
structure Dispatchable (message : RpcMessage) : Prop where
  service : g.eServiceTypeIsValid message.service = true → InRange message.service g.serviceTypeMax
  method : ∀ service, Registered g message.service service →
    InRange message.method service.methods.length

variable {g}

/-- A service that `GetServicePtr` returns is registered. -/
theorem Registered.of_getServicePtr {serviceType : ℤ} {service : Service D}
    (h : (registerService g).getServicePtr g serviceType = some (some service)) :
    Registered g serviceType service := by
  unfold MgrMessage.getServicePtr at h
  split at h
  · cases h
  · split at h
    · exact ⟨‹_›, h⟩
    · cases h

/-- `GetServicePtr` of a service that is registered, under a valid type. -/
theorem Registered.getServicePtr {serviceType : ℤ} {service : Service D}
    (h : Registered g serviceType service) (hv : g.eServiceTypeIsValid serviceType = true) :
    (registerService g).getServicePtr g serviceType = some (some service) := by
  rw [MgrMessage.getServicePtr, hv, Bool.not_true, if_neg Bool.noConfusion, if_pos h.1]
  exact h.2

/-- `GetServicePtr` returns null for a service that is not registered, when the array is
read inside its bounds. -/
theorem getServicePtr_of_not_registered {serviceType : ℤ}
    (hs : ∀ service, ¬ Registered g serviceType service)
    (hv : g.eServiceTypeIsValid serviceType = true → InRange serviceType g.serviceTypeMax) :
    (registerService g).getServicePtr g serviceType = some none := by
  unfold MgrMessage.getServicePtr
  split
  · rfl
  · rename_i hvalid
    obtain ⟨h0, hlt⟩ := hv (by simpa using hvalid)
    have hbound : serviceType.toNat < (registerService g).mArrayService.length := by
      rw [length_registerService]
      omega
    rw [if_pos h0, List.getElem?_eq_getElem hbound, Option.some.injEq]
    cases hget : (registerService g).mArrayService[serviceType.toNat] with
    | none => rfl
    | some service =>
      refine absurd ⟨h0, ?_⟩ (hs service)
      rw [List.getElem?_eq_getElem hbound, hget]

variable {P : Protobuf M D} {p : Peer M} {message : RpcMessage} {handler : Handler M}

/-- The reply to a request whose service `GetServicePtr` does not return. -/
theorem serviceHandleRequestMsg_noService
    (hs : (registerService g).getServicePtr g message.service = some none) :
    p.serviceHandleRequestMsg P g message handler =
      some (p.funcErrorCode message .noService) := by
  simp only [Peer.serviceHandleRequestMsg, Peer.serviceEnterMethod, hs]

/-- **When the dispatch of a request stays within the tables.** -/
theorem staysInTables_iff (P : Protobuf M D) (p : Peer M) (message : RpcMessage)
    (handler : Handler M) : StaysInTables g P p message handler ↔ Dispatchable g message := by
  constructor
  · intro h
    have hat : g.eServiceTypeIsValid message.service = true →
        InRange message.service g.serviceTypeMax := fun hv =>
      h.at_ message.service (by rw [atIndex, if_pos hv]; rfl)
    refine ⟨hat, fun service hs => ?_⟩
    by_contra hm
    obtain ⟨p', reply, hp', hout, -, -, herr, -⟩ := h.noMethod service hs hm
    by_cases hv : g.eServiceTypeIsValid message.service = true
    · -- `method` is called with the index
      have hcall : methodIndex g message = some (message.method, service.methods.length) := by
        rw [methodIndex, hs.getServicePtr hv]
      exact hm (h.method _ hcall)
    · -- the reply is about the service
      have hnone : (registerService g).getServicePtr g message.service = some none := by
        rw [MgrMessage.getServicePtr, if_pos (by simpa using hv)]
      rw [serviceHandleRequestMsg_noService hnone, Option.some.injEq] at hp'
      subst hp'
      rw [funcErrorCode_of_ne _ (by decide), Peer.sendMessage, List.append_cancel_left_eq,
        List.singleton_inj] at hout
      subst hout
      cases herr
  · intro h
    refine ⟨fun hs => ?_, fun service hs hm => absurd (h.method service hs) hm, ?_, ?_⟩
    · exact ⟨_, _, serviceHandleRequestMsg_noService (getServicePtr_of_not_registered hs h.service),
        rfl, rfl, rfl, rfl, rfl⟩
    · intro index hi
      unfold atIndex at hi
      split at hi
      · cases hi
        exact h.service ‹_›
      · cases hi
    · intro call hc
      unfold methodIndex at hc
      split at hc
      · cases hc
        exact h.method _ (.of_getServicePtr ‹_›)
      · cases hc

end

/-! ### The sign-in services -/

section

open SignIn

/-- A request for a method of a service, to a peer that has just been made. -/
def Stays (service method : ℤ) : Prop :=
  StaysInTables generated protobuf { mDelayResponseId := 0 }
    { type := .request, id := 1, service := service, method := method }
    ⟨[], false, .userSignInRes true⟩

/-- `SERVICETYPE_MAX` is valid, and `m_arrayService.at` throws; `C2A_UserService` has one
method, and `method(1)` and `method(-1)` point outside it. -/
theorem not_staysInTables : ¬ Stays 3 0 ∧ ¬ Stays 1 1 ∧ ¬ Stays 1 (-1) := by
  refine ⟨fun h => ?_, fun h => ?_, fun h => ?_⟩
  · exact absurd (h.at_ 3 rfl) (by decide)
  · exact absurd (h.method (1, 1) rfl) (by decide)
  · exact absurd (h.method (-1, 1) rfl) (by decide)

end

end ThirdPersonMP.Rpc
