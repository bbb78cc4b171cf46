/-
Introductions in base 1.0 frames.

Text is written without `>`, and a tag neither begins with one nor has a `]` in it.  So a
document has no `>` behind a `]`: it neither contains the delimiter of base 1.0 nor forms
one with that of its own frame, whatever the capabilities are.

* `Hello.not_infix_of_write` — there is not even half a delimiter in a document;
* `Session.receiveHello_sent` — the peer reads the document that was sent, and what follows
  its frame is left.
-/
import Mathlib.Data.List.Chain
import NetconfWire.Proofs.Reception
import NetconfWire.Proofs.Writing

namespace NetconfWire

open Xml

/-! ### Documents without half a delimiter -/

/-- No `>` stands behind a `]` in the octets, nor at their front. -/
def Guarded (b : Octets) : Prop :=
  b.IsChain (fun x y => x = 0x5D → y ≠ 0x3E) ∧ b.head? ≠ some 0x3E

instance (b : Octets) : Decidable (Guarded b) :=
  inferInstanceAs (Decidable (_ ∧ _))

namespace Guarded

variable {b b' : Octets}

theorem append (hb : Guarded b) (hb' : Guarded b') : Guarded (b ++ b') := by
  constructor
  · -- where the parts meet, the second one does not begin with `>`
    refine List.isChain_append.mpr ⟨hb.1, hb'.1, fun x _ y hy _ hgreater => ?_⟩
    rw [hgreater] at hy
    exact hb'.2 hy
  · cases b with
    | nil => exact hb'.2
    | cons x b => exact hb.2

theorem of_notMem (h : 0x3E ∉ b) : Guarded b := by
  constructor
  · refine List.Pairwise.isChain (List.pairwise_of_forall_mem_list fun x _ y hy _ hgreater => ?_)
    rw [hgreater] at hy
    exact h hy
  · exact fun hfirst => h (List.mem_of_head? hfirst)

theorem not_infix_half (h : Guarded b) : ¬ Frame.halfDelimiter <:+: b := by
  intro hin
  have hhalf := List.IsChain.infix h.1 hin
  exact absurd hhalf (by decide)

end Guarded

namespace Hello

theorem greater_notMem_escape (s : List Char) : '>' ∉ escape s := by
  intro h
  obtain ⟨c, -, hc⟩ := List.mem_flatMap.mp h
  revert hc
  rw [escapeChar]
  split
  · decide
  split
  · decide
  split
  · decide
  split
  · decide
  · next hgreater _ =>
    intro hc
    exact hgreater (beq_iff_eq.mpr (List.mem_singleton.mp hc).symm)

theorem guarded_escape (s : List Char) : Guarded (Utf8.encode (escape s)) :=
  .of_notMem fun h => greater_notMem_escape s (Utf8.mem_encode (by decide) h)

theorem additive_guarded : Additive fun s => Guarded (Utf8.encode s) where
  nil := ⟨List.isChain_nil, by simp [Utf8.encode]⟩
  append hs ht := by
    rw [Utf8.encode, List.flatMap_append]
    exact hs.append ht

theorem guarded_document (capabilities : List (Option (List Char))) (sessionId : Option (List Char)) :
    Guarded (Utf8.encode (document capabilities sessionId)) := by
  have hdeclaration : Guarded (Utf8.encode declaration) := by decide
  have hopening : Guarded (Utf8.encode helloTag) := by decide
  have hclosing : Guarded (Utf8.encode "</hello>".toList) := by decide
  have htags : ∀ tag ∈ innerTags, Guarded (Utf8.encode tag.toList) := by decide
  have hinside : Guarded (Utf8.encode (inside capabilities sessionId)) :=
    inside_additive additive_guarded htags (fun _ _ s _ => guarded_escape s)
      (fun s _ => guarded_escape s)
  have hroot := additive_guarded.append (additive_guarded.append hopening hinside) hclosing
  rw [document_eq]
  exact additive_guarded.append hdeclaration hroot

/-- There is not even half a delimiter in what is written. -/
theorem not_infix_of_write {h : Hello} {octets : Octets} (hwrite : h.write = .ok octets) :
    ¬ Frame.halfDelimiter <:+: octets := by
  obtain ⟨capabilities, digits, -, -, -, rfl⟩ := write_eq_ok_iff.mp hwrite
  exact (guarded_document _ _).not_infix_half

end Hello

/-! ### Sessions of base 1.0 -/

namespace Session

theorem sendHello_script {s : Session Script} {h : Hello} {document : Octets}
    (hwrite : h.write = .ok document) (hopen : s.isClosed = false)
    (hlink : s.line.link.isClosed = false) (hsends : s.line.link.sends = []) :
    ∃ s', sendHello (some h) s = .ok () s' ∧ s'.localHello = some h ∧
      s'.line.link.calls = .sent (Frame.encode s.version document) :: s.line.link.calls := by
  obtain ⟨sent, hsent, hcalls⟩ := send_script .frozen document hopen hlink hsends
  rw [sendHello_eq (some h) hopen, Option.getD_some, hwrite]
  dsimp only
  rw [hsent]
  exact ⟨_, rfl, rfl, hcalls⟩

theorem receiveHello_of_read {s s' : Session Script} {message : Octets} {back : Hello}
    (hreceive : receive s = .ok message s') (hread : Hello.read (.octets .frozen message) = .ok back) :
    ∃ s'', receiveHello s = .ok back s'' ∧ s''.remoteHello = some back ∧ s''.line = s'.line := by
  rw [receiveHello_eq, hreceive]
  dsimp only
  rw [hread]
  exact ⟨_, rfl, rfl, rfl⟩

/-- **An introduction that is sent in base 1.0 is read by the peer as it was written**, whatever its
capabilities say and however its frame is split, and what follows the frame is left. -/
theorem receiveHello_sent {h : Hello} {document : Octets} (hwrite : h.write = .ok document) :
    ¬ Frame.halfDelimiter <:+: document ∧
    ∃ back, Hello.read (.octets .frozen document) = .ok back ∧
      (∀ sender : Session Script, sender.isClosed = false → sender.version = .base10 →
        sender.line.link.isClosed = false → sender.line.link.sends = [] →
        ∃ sent, sendHello (some h) sender = .ok () sent ∧ sent.localHello = some h ∧
          sent.line.link.calls
            = .sent (Frame.encode .base10 document) :: sender.line.link.calls) ∧
      ∀ (rest : Octets) (r : Reception (Frame.encode .base10 document ++ rest)),
        ((Frame.encode .base10 document).length : Int) ≤ r.limit →
        ∃ s, receiveHello r.session = .ok back s ∧ s.remoteHello = some back ∧
          s.line.ahead = rest := by
  have hhalf := Hello.not_infix_of_write hwrite
  -- the delimiter begins with its half, and the document cannot end with one either
  have hplain : Frame.Unambiguous .base10 document :=
    ⟨fun hin => hhalf (List.IsInfix.trans (by decide) hin), fun hend => hhalf hend.isInfix⟩
  obtain ⟨back, hread⟩ := Hello.read_of_write .frozen hwrite
  refine ⟨hhalf, back, hread, fun sender hopen hversion hlink hsends => ?_, fun rest r hlimit => ?_⟩
  · obtain ⟨sent, hsent, hlocal, hcalls⟩ := sendHello_script hwrite hopen hlink hsends
    rw [hversion] at hcalls
    exact ⟨sent, hsent, hlocal, hcalls⟩
  · obtain ⟨hready, hversion, hahead, hwindow⟩ := r.ready
    obtain ⟨l, hrest, -, hreceive⟩ := receive_encode hready hversion hplain hahead (by omega)
    obtain ⟨s, hs, hremote, hline⟩ := receiveHello_of_read hreceive hread
    refine ⟨s, hs, hremote, ?_⟩
    rw [hline]
    exact hrest

/-- A capability that looks like the delimiter, one that is null, and a session id.  The delimiter of
the frame comes in two parts, with an octet behind it. -/
theorem receiveHello_sent_delimiter :
    ∃ (document : Octets) (r : Reception (Frame.encode .base10 document ++ [0x0A])),
      Hello.write ⟨[.text "]]>]]>", .null], .integer 4⟩ = .ok document ∧
      r.parts = [document ++ [0x5D, 0x5D], [0x3E, 0x5D, 0x5D, 0x3E, 0x0A]] ∧
      ∃ back s, receiveHello r.session = .ok back s ∧ s.remoteHello = some back ∧
        s.line.ahead = [0x0A] := by
  have hwrite : Hello.write ⟨[.text "]]>]]>", .null], .integer 4⟩
      = .ok (Utf8.encode (Hello.document [some "]]>]]>".toList, none] (some ['4']))) :=
    Hello.write_eq_ok_iff.mpr ⟨_, _, by simp, rfl, rfl, rfl⟩
  have hlimit : ((Frame.encode .base10 (Utf8.encode
      (Hello.document [some "]]>]]>".toList, none] (some ['4'])))).length : Int)
      ≤ Window.defaultLimit := by
    decide +kernel
  generalize Utf8.encode (Hello.document [some "]]>]]>".toList, none] (some ['4'])) = document
    at hwrite hlimit
  have hparts : [document ++ [0x5D, 0x5D], [0x3E, 0x5D, 0x5D, 0x3E, 0x0A]].flatten
      = Frame.encode .base10 document ++ [0x0A] := by
    simp [Frame.encode, Frame.delimited, Frame.delimiter]
  let r : Reception (Frame.encode .base10 document ++ [0x0A]) :=
    { Reception.ofParts [document ++ [0x5D, 0x5D], [0x3E, 0x5D, 0x5D, 0x3E, 0x0A]] (by simp) with
      flatten_parts := hparts }
  obtain ⟨-, back, -, -, hreceive⟩ := receiveHello_sent hwrite
  obtain ⟨s, hs⟩ := hreceive [0x0A] r hlimit
  exact ⟨document, r, hwrite, rfl, back, s, hs⟩

end Session

end NetconfWire
