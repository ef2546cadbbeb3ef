import Kirilock.Ledger
import Kirilock.PasswordConv
import Mathlib.Data.List.Induction
import Mathlib.Tactic.Abel

/-!
What `internal_pam_conv` leaves on the heap.

The loop that gives up runs its index down over the array it has partly filled, with
`NULL` where a message was no prompt.  Wherever `strdup` fails, it has then freed the
strings that were copied, the last one first, and the array after them; where none fails,
the array and its strings are PAM's (`conv_settled`).
-/

namespace Auth.Password

open Ledger

/-! ## The heap -/

/-- What a call takes from the heap or gives back. -/
def HeapCall.entries : HeapCall → List (Entry Ptr)
  | .calloc _ ret => ret.toList.map .acquire
  | .strdup _ ret => ret.toList.map .acquire
  | .free p => p.toList.map .release

def heapEntries (cs : List HeapCall) : List (Entry Ptr) := cs.flatMap HeapCall.entries

@[simp] theorem heapEntries_cons (c : HeapCall) (cs : List HeapCall) :
    heapEntries (c :: cs) = c.entries ++ heapEntries cs := rfl

@[simp] theorem heapEntries_append (cs ds : List HeapCall) :
    heapEntries (cs ++ ds) = heapEntries cs ++ heapEntries ds := by
  simp [heapEntries]

/-- The string that a call has copied. -/
def HeapCall.copied : HeapCall → Option Ptr
  | .strdup _ ret => ret
  | _ => none

/-- The array that a call has allocated. -/
def HeapCall.array : HeapCall → Option Ptr
  | .calloc _ ret => ret
  | _ => none

/-- What a call frees; `free(NULL)` frees nothing. -/
def HeapCall.freed : HeapCall → Option Ptr
  | .free p => p
  | _ => none

/-- The string of a response. -/
def PamResponse.string (r : PamResponse) : Option Ptr := r.resp.map (·.addr)

/-- The strings of the responses, in order. -/
def strings (reply : List PamResponse) : List Ptr := reply.filterMap PamResponse.string

theorem strings_append (reply reply' : List PamResponse) :
    strings (reply ++ reply') = strings reply ++ strings reply' :=
  List.filterMap_append

theorem strings_zeroed (n : Nat) : strings (List.replicate n .zeroed) = [] := by
  induction n with
  | zero => rfl
  | succ n ih => exact ih

/-- The held strings and the array, as the ledger counts them. -/
def heldReply (base : Ptr) (reply : List PamResponse) : Multiset Ptr :=
  {base} + ((strings reply : List Ptr) : Multiset Ptr)

theorem heldReply_append (base : Ptr) (done : List PamResponse) (addr : Ptr) (bytes : List UInt8) :
    heldReply base (done ++ [⟨some ⟨addr, bytes⟩, 0⟩]) = {addr} + heldReply base done := by
  have hs : strings [⟨some ⟨addr, bytes⟩, 0⟩] = [addr] := rfl
  rw [heldReply, strings_append, hs, ← Multiset.coe_add, Multiset.coe_singleton, heldReply]
  abel

/-! ## The unwinding -/

/-- The unwinding frees what the first responses hold, the last one first. -/
theorem convUnwind_freed (done rest : List PamResponse) :
    (convUnwind (done ++ rest) done.length).filterMap HeapCall.freed = (strings done).reverse := by
  induction done using List.reverseRecOn generalizing rest with
  | nil => rfl
  | append_singleton done r ih =>
    have hget : (done ++ [r] ++ rest)[done.length]? = some r := by simp
    have hrest := ih ([r] ++ rest)
    rw [← List.append_assoc] at hrest
    have hstring : ((some r).bind (·.resp)).map (·.addr) = r.string := rfl
    rw [List.length_append, List.length_singleton, convUnwind, hget, hstring, strings_append]
    cases hr : r.string with
    | none =>
      have hnone : strings [r] = [] := by simp [strings, hr]
      rw [List.filterMap_cons_none rfl, hrest, hnone, List.append_nil]
    | some addr =>
      have hsome : strings [r] = [addr] := by simp [strings, hr]
      rw [List.filterMap_cons_some (f := HeapCall.freed) rfl, hrest, hsome, List.reverse_append]
      rfl

/-- … and allocates nothing. -/
theorem convUnwind_allocates (reply : List PamResponse) (i : Nat) :
    (convUnwind reply i).filterMap HeapCall.copied = [] ∧
      (convUnwind reply i).filterMap HeapCall.array = [] ∧
      heapEntries (convUnwind reply i) =
        ((convUnwind reply i).filterMap HeapCall.freed).map .release := by
  induction i with
  | zero => exact ⟨rfl, rfl, rfl⟩
  | succ i ih =>
    obtain ⟨hcopied, harray, hentries⟩ := ih
    refine ⟨hcopied, harray, ?_⟩
    rw [convUnwind, heapEntries_cons, hentries]
    cases (reply[i]?.bind (·.resp)).map (·.addr) <;> rfl

/-- Releasing what a list holds, in any order. -/
theorem settles_releases (ps : List Ptr) (held : Multiset Ptr) :
    Settles ((ps : Multiset Ptr) + held) (ps.map .release) held := by
  induction ps with
  | nil => exact (settles_nil held).cast (by simp) rfl
  | cons p ps ih =>
    have h := (settles_release p ((ps : Multiset Ptr) + held)).append ih
    refine h.cast ?_ rfl
    rw [← Multiset.cons_coe, Multiset.cons_add, Multiset.singleton_add]

/-! ## The loop -/

section Fills

variable {o : ConvOutcomes} {appdata : List UInt8} {base : Ptr} {done reply : List PamResponse}
  {msgs : List PamMessage} {ok : Bool} {cs : List HeapCall}

/-- The loop holds the array and the strings so far, and at its end all of them or nothing. -/
theorem Fills.settles (h : Fills o appdata base done msgs ok reply cs) :
    Settles (heldReply base done) (heapEntries cs) (if ok then heldReply base reply else 0) := by
  induction h with
  | nil done => exact settles_nil _
  | failed done msg msgs hp =>
    have hunwind := convUnwind_freed done (List.replicate (msgs.length + 1) .zeroed)
    have hentries := (convUnwind_allocates (done ++ List.replicate (msgs.length + 1) .zeroed)
      done.length).2.2
    have hfrees := (settles_releases (strings done).reverse {base}).append
      ((settles_release base 0).cast (add_zero _) rfl)
    rw [heapEntries_cons, heapEntries_append, hentries, hunwind]
    refine hfrees.cast ?_ rfl
    rw [Multiset.coe_reverse, heldReply, add_comm]
  | copied addr hp h ih =>
    rw [heldReply_append] at ih
    exact (settles_acquire addr _).append ih
  | other hp h ih =>
    have hs : strings [PamResponse.zeroed] = [] := rfl
    rwa [heldReply, strings_append, hs, List.append_nil] at ih

/-- What it frees: nothing, or the strings from the last one on and then the array. -/
theorem Fills.freed (h : Fills o appdata base done msgs ok reply cs) :
    cs.filterMap HeapCall.array = [] ∧
      cs.filterMap HeapCall.freed =
        if ok then []
        else (strings done ++ cs.filterMap HeapCall.copied).reverse ++ [base] := by
  induction h with
  | nil done => exact ⟨rfl, rfl⟩
  | failed done msg msgs hp =>
    have hunwind := convUnwind_freed done (List.replicate (msgs.length + 1) .zeroed)
    obtain ⟨hcopied, harray, -⟩ := convUnwind_allocates
      (done ++ List.replicate (msgs.length + 1) .zeroed) done.length
    rw [List.filterMap_cons_none rfl, List.filterMap_cons_none rfl, List.filterMap_cons_none rfl,
      List.filterMap_append, List.filterMap_append, List.filterMap_append, hunwind, hcopied,
      harray]
    refine ⟨rfl, ?_⟩
    have hnil : ([] : List Ptr) ++ [HeapCall.free (some base)].filterMap HeapCall.copied = [] := rfl
    rw [hnil, List.append_nil]
    rfl
  | copied addr hp h ih =>
    have hs : ∀ bytes, strings [⟨some ⟨addr, bytes⟩, 0⟩] = [addr] := fun _ => rfl
    obtain ⟨harray, hfreed⟩ := ih
    rw [strings_append, hs, List.append_assoc] at hfreed
    exact ⟨harray, hfreed⟩
  | other hp h ih =>
    have hs : strings [PamResponse.zeroed] = [] := rfl
    rwa [strings_append, hs, List.append_nil] at ih

/-- The strings of the array are the copies, in order. -/
theorem Fills.copies (h : Fills o appdata base done msgs ok reply cs) :
    strings reply = strings done ++ cs.filterMap HeapCall.copied ∧
      reply.length = done.length + msgs.length := by
  induction h with
  | nil done => exact ⟨(List.append_nil _).symm, rfl⟩
  | failed done msg msgs hp =>
    obtain ⟨hcopied, -, -⟩ := convUnwind_allocates
      (done ++ List.replicate (msgs.length + 1) .zeroed) done.length
    rw [strings_append, strings_zeroed, List.filterMap_cons_none rfl, List.filterMap_append,
      hcopied]
    exact ⟨rfl, by simp⟩
  | copied addr hp h ih =>
    have hs : ∀ bytes, strings [⟨some ⟨addr, bytes⟩, 0⟩] = [addr] := fun _ => rfl
    obtain ⟨hstrings, hlen⟩ := ih
    rw [strings_append, hs, List.append_assoc] at hstrings
    rw [List.length_append, List.length_singleton] at hlen
    exact ⟨hstrings, by rw [hlen, List.length_cons]; omega⟩
  | other hp h ih =>
    have hs : strings [PamResponse.zeroed] = [] := rfl
    obtain ⟨hstrings, hlen⟩ := ih
    rw [strings_append, hs, List.append_nil] at hstrings
    rw [List.length_append, List.length_singleton] at hlen
    exact ⟨hstrings, by rw [hlen, List.length_cons]; omega⟩

end Fills

/-! ## The function -/

/-- What an `internal_pam_conv` does to the heap and to `*resp`. -/
structure ConvSettled (msgs : List PamMessage) (resp : Option Reply)
    (r : Int32 × Option Reply × List HeapCall) : Prop where
  /-- an error leaves `*resp` as it was, … -/
  unchanged : r.1 ≠ pamSuccess → r.2.1 = resp
  /-- … frees each copied string once, the last one first, then the array if there is one,
  and nothing else, … -/
  freed : r.1 ≠ pamSuccess → r.2.2.filterMap HeapCall.freed =
    (r.2.2.filterMap HeapCall.copied).reverse ++ r.2.2.filterMap HeapCall.array
  /-- … each while it is allocated, so that nothing is left -/
  settled : r.1 ≠ pamSuccess → Settles 0 (heapEntries r.2.2) 0
  /-- a success frees nothing, … -/
  kept : r.1 = pamSuccess → r.2.2.filterMap HeapCall.freed = []
  /-- … and `*resp` is the array, with a response for each message, which holds every string
  that was copied -/
  returned : r.1 = pamSuccess → ∃ base reply, r.2.1 = some (some (base, reply)) ∧
    r.2.2.filterMap HeapCall.array = [base] ∧ reply.length = msgs.length ∧
    strings reply = r.2.2.filterMap HeapCall.copied ∧
    Settles 0 (heapEntries r.2.2) (heldReply base reply)

/-- A conversation that ends before anything is allocated. -/
theorem convSettled_early (msgs : List PamMessage) (resp : Option Reply) {ret : Int32}
    (hret : ret ≠ pamSuccess) {cs : List HeapCall} (hcs : heapEntries cs = [])
    (hnone : ∀ c ∈ cs, c.freed = none ∧ c.copied = none ∧ c.array = none) :
    ConvSettled msgs resp (ret, resp, cs) := by
  have hfree : cs.filterMap HeapCall.freed = [] :=
    List.filterMap_eq_nil_iff.mpr fun c hc => (hnone c hc).1
  have hcopy : cs.filterMap HeapCall.copied = [] :=
    List.filterMap_eq_nil_iff.mpr fun c hc => (hnone c hc).2.1
  have harray : cs.filterMap HeapCall.array = [] :=
    List.filterMap_eq_nil_iff.mpr fun c hc => (hnone c hc).2.2
  refine ⟨fun _ => rfl, fun _ => ?_, fun _ => ?_, fun h => absurd h hret, fun h => absurd h hret⟩
  · rw [hfree, hcopy, harray]
    rfl
  · rw [hcs]
    exact settles_nil 0

/-- A conversation that has its array. -/
theorem convSettled_filled (resp : Option Reply) {o : ConvOutcomes} {bytes : List UInt8}
    {base : Ptr} {msgs : List PamMessage} {ok : Bool} {reply : List PamResponse}
    {cs : List HeapCall} (h : Fills o bytes base [] msgs ok reply cs) :
    ConvSettled msgs resp (if ok then (pamSuccess, some (some (base, reply)),
      .calloc msgs.length (some base) :: cs) else
      (pamBufErr, resp, .calloc msgs.length (some base) :: cs)) := by
  obtain ⟨harray, hfreed⟩ := h.freed
  obtain ⟨hstrings, hlen⟩ := h.copies
  have hsettles : Settles 0 (heapEntries (.calloc msgs.length (some base) :: cs))
      (if ok then heldReply base reply else 0) :=
    (settles_acquire base 0).append h.settles
  have harrays : (HeapCall.calloc msgs.length (some base) :: cs).filterMap HeapCall.array =
      [base] := by
    rw [List.filterMap_cons_some (f := HeapCall.array) rfl, harray]
  have hfrees : (HeapCall.calloc msgs.length (some base) :: cs).filterMap HeapCall.freed =
      cs.filterMap HeapCall.freed := List.filterMap_cons_none rfl
  have hcopies : (HeapCall.calloc msgs.length (some base) :: cs).filterMap HeapCall.copied =
      cs.filterMap HeapCall.copied := List.filterMap_cons_none rfl
  cases ok with
  | true =>
    refine ⟨fun h => absurd rfl h, fun h => absurd rfl h, fun h => absurd rfl h, fun _ => ?_,
      fun _ => ⟨base, reply, rfl, harrays, ?_, ?_, hsettles⟩⟩
    · exact hfrees.trans hfreed
    · simpa using hlen
    · exact hstrings.trans hcopies.symm
  | false =>
    have hbuf : pamBufErr ≠ pamSuccess := by decide
    refine ⟨fun _ => rfl, fun _ => ?_, fun _ => hsettles, fun h => absurd h hbuf,
      fun h => absurd h hbuf⟩
    show (HeapCall.calloc msgs.length (some base) :: cs).filterMap HeapCall.freed =
      ((HeapCall.calloc msgs.length (some base) :: cs).filterMap HeapCall.copied).reverse ++
        (HeapCall.calloc msgs.length (some base) :: cs).filterMap HeapCall.array
    rw [hfrees, hcopies, harrays]
    exact hfreed

/-- **No string and no array is lost or freed twice**: for every list of messages and every
point at which `strdup` fails. -/
theorem conv_settled (msgs : List PamMessage) (resp : Option Reply)
    (appdata : Option (List UInt8)) (o : ConvOutcomes) :
    ConvSettled msgs resp (internalPamConv msgs resp appdata o) := by
  have hbuf : pamBufErr ≠ pamSuccess := by decide
  have hrefused : ConvSettled msgs resp (pamConvErr, resp, []) :=
    convSettled_early msgs resp (by decide) rfl (by simp)
  cases resp with
  | none => exact hrefused
  | some old =>
    cases appdata with
    | none => exact hrefused
    | some bytes =>
      by_cases hm : msgs = []
      · simp only [internalPamConv, if_pos hm]
        exact hrefused
      · cases hc : o.calloc with
        | none =>
          simp only [internalPamConv, if_neg hm, hc]
          exact convSettled_early msgs _ hbuf rfl
            (by simp [HeapCall.freed, HeapCall.copied, HeapCall.array])
        | some base =>
          simp only [internalPamConv, if_neg hm, hc]
          exact convSettled_filled (some old) (convFill_fills o bytes base msgs [])

end Auth.Password
