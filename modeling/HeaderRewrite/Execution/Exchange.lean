import HeaderRewrite.Execution.Dependence

/-!
# From the request to the response

On one stream the operations on the request are executed first and those on the response later, with
the stream info that the request left. What the request side writes to the metadata of the filter is
the only way in which the request can have an influence on the response headers.

## Main definitions

* `HttpHeaderRewriteFilter.passesOn`: the response side reads metadata that the request side writes.

## Main results

* `HttpHeaderRewriteFilter.encodeHeaders_exchange`: what the response headers depend on.
-/

namespace HeaderRewrite

open Cxx Utility

variable {M I : Type}

/-- Whether a cell is a field of metadata, which the request and the response have in common. -/
def Cell.isField : Cell → Bool
  | .field _ _ => true
  | _ => false

namespace HttpHeaderRewriteFilter

/-- Whether the response side reads metadata that the request side may write. -/
def passesOn (E : Envoy M I) (f : HttpHeaderRewriteFilter) : Bool :=
  (f.reads E false).any fun c => c.isField && f.mayChange E true c

section Exchange

variable {E : Envoy M I} {f : HttpHeaderRewriteFilter} {config : Str}
  {headers headers' map map' responseHeaders responseHeaders' : M}
  {streamInfo streamInfo' info info' : I}

/-- A field that the response side reads is the same after two requests, if it was before and the
requests agree on what the request side reads in the case that metadata is passed on. -/
theorem observe_field_of_decodeHeaders (hheaders : E.HeaderLaws) (hmetadata : E.MetadataLaws)
    (hnamespaces : E.NamespaceLaws) (hwf : SideWellFormed E f true)
    (hpasses : f.passesOn E = true → ∀ c ∈ f.reads E true,
      E.observe (.start true headers streamInfo) c = E.observe (.start true headers' streamInfo') c)
    (hdecode : decodeHeaders E f headers streamInfo = .returned ⟨⟨true, map⟩, some info⟩)
    (hdecode' : decodeHeaders E f headers' streamInfo' = .returned ⟨⟨true, map'⟩, some info'⟩)
    {filter key : Str} (hreads : .field filter key ∈ f.reads E false)
    (hagree : E.observe (.start true headers streamInfo) (.field filter key) =
      E.observe (.start true headers' streamInfo') (.field filter key)) :
    E.observe ⟨⟨true, map⟩, some info⟩ (.field filter key) =
      E.observe ⟨⟨true, map'⟩, some info'⟩ (.field filter key) := by
  cases hmay : f.mayChange E true (.field filter key) with
  -- the request side does not write the field
  | false =>
    rw [hwf.observe_eq_of_not_mayChange hheaders hmetadata hnamespaces hdecode hmay,
      hwf.observe_eq_of_not_mayChange hheaders hmetadata hnamespaces hdecode' hmay, hagree]
  -- it may, and then does the same to it on both requests
  | true =>
    have hpass : f.passesOn E = true :=
      List.any_eq_true.mpr ⟨_, hreads, by rw [hmay]; rfl⟩
    have hrel := hwf.executeHeaders_sameChange hheaders hmetadata hnamespaces (hpasses hpass)
    rw [decodeHeaders] at hdecode hdecode'
    rw [hdecode, hdecode'] at hrel
    obtain ⟨_, hreturned, hchange⟩ := hrel.exists_of_returned
    obtain rfl := Outcome.returned.inj hreturned
    exact hchange.eq_of_eq hagree

/-- Two responses that agree on what the response side reads are handled in the same way after any
two requests, unless the request side writes metadata that the response side reads; where it does,
after any two requests that agree on what the request side reads. Every response header on which the
responses agree is the same in the end. -/
theorem encodeHeaders_exchange (hheaders : E.HeaderLaws) (hmetadata : E.MetadataLaws)
    (hnamespaces : E.NamespaceLaws) (hf : construct E config = .returned f)
    (hpasses : f.passesOn E = true → ∀ c ∈ f.reads E true,
      E.observe (.start true headers streamInfo) c = E.observe (.start true headers' streamInfo') c)
    (hdecode : decodeHeaders E f headers streamInfo = .returned ⟨⟨true, map⟩, some info⟩)
    (hdecode' : decodeHeaders E f headers' streamInfo' = .returned ⟨⟨true, map'⟩, some info'⟩)
    (hagree : ∀ c ∈ f.reads E false, E.observe (.start false responseHeaders streamInfo) c =
      E.observe (.start false responseHeaders' streamInfo') c) :
    Outcome.Rel (fun st st' => ∀ name,
        E.get responseHeaders name = E.get responseHeaders' name →
        E.get st.headers.map name = E.get st'.headers.map name)
      (encodeHeaders E f responseHeaders info) (encodeHeaders E f responseHeaders' info') := by
  have hwf : SideWellFormed E f true := sideWellFormed_of_processLines hf
  have hwf' : SideWellFormed E f false := sideWellFormed_of_processLines hf
  -- the responses still agree on what is read after the requests
  have hagree' : ∀ c ∈ f.reads E false, E.observe (.start false responseHeaders info) c =
      E.observe (.start false responseHeaders' info') c := by
    intro c hc
    cases c with
    | stream => rfl
    | header name => exact hagree _ hc
    | field filter key =>
      exact observe_field_of_decodeHeaders hheaders hmetadata hnamespaces hwf hpasses hdecode
        hdecode' hc (hagree _ hc)
  refine (hwf'.executeHeaders_sameChange hheaders hmetadata hnamespaces hagree').mono
    fun st st' hchange name hname => ?_
  exact E.get_of_observe (hchange.eq_of_eq (congrArg Content.header hname))

/-- The request side writes one field of metadata, and the response side reads another. -/
theorem encodeHeaders_exchange_other :
    ∃ f map map' info info', construct Reference.envoy
          ("http-request set-metadata a %[hdr(x)]\n" ++
            "http-response set-header k %[metadata(b)]").toList = .returned f ∧
      decodeHeaders Reference.envoy f [("x".toList, "1".toList)] [] =
        .returned ⟨⟨true, map⟩, some info⟩ ∧
      decodeHeaders Reference.envoy f [("x".toList, "2".toList)] [] =
        .returned ⟨⟨true, map'⟩, some info'⟩ ∧
      Outcome.Rel (fun st st' => ∀ name, Reference.envoy.get [] name = Reference.envoy.get [] name →
          Reference.envoy.get st.headers.map name = Reference.envoy.get st'.headers.map name)
        (encodeHeaders Reference.envoy f [] info) (encodeHeaders Reference.envoy f [] info') := by
  obtain ⟨f, hf, htest⟩ := Outcome.exists_of_returnsWith
    (show (construct Reference.envoy ("http-request set-metadata a %[hdr(x)]\n" ++
        "http-response set-header k %[metadata(b)]").toList).returnsWith
      (fun f => decide (f.passesOn Reference.envoy = false) &&
        ["1", "2"].all fun value =>
          (decodeHeaders Reference.envoy f [("x".toList, value.toList)] []).returnsWith
            fun _ => true) = true by
      decide +kernel)
  simp only [Bool.and_eq_true, decide_eq_true_eq, List.all_cons, List.all_nil] at htest
  obtain ⟨hpasses, hfirst, hsecond, -⟩ := htest
  obtain ⟨st, hdecode, -⟩ := Outcome.exists_of_returnsWith hfirst
  obtain ⟨st', hdecode', -⟩ := Outcome.exists_of_returnsWith hsecond
  obtain ⟨map, info, rfl⟩ := (onSide_of_executeHeaders hdecode).exists_eq_start
  obtain ⟨map', info', rfl⟩ := (onSide_of_executeHeaders hdecode').exists_eq_start
  exact ⟨f, map, map', info, info', hf, hdecode, hdecode', encodeHeaders_exchange
    Reference.headerLaws Reference.metadataLaws Reference.namespaceLaws hf
    (fun h => absurd h (by rw [hpasses]; exact Bool.false_ne_true)) hdecode hdecode'
    fun _ _ => rfl⟩

end Exchange

end HttpHeaderRewriteFilter

end HeaderRewrite
