/-
NETCONF messages on the wire.

This is the root of the library; it brings in all of its modules.
-/
import NetconfWire.Link.Rehearsed
import NetconfWire.Proofs.Characters
import NetconfWire.Proofs.Choices
import NetconfWire.Proofs.Comments
import NetconfWire.Proofs.Delivery
import NetconfWire.Proofs.Fragments
import NetconfWire.Proofs.Greetings
import NetconfWire.Proofs.Lengths
import NetconfWire.Proofs.Limits
import NetconfWire.Proofs.Looks
import NetconfWire.Proofs.Outgoing
import NetconfWire.Proofs.Passes
import NetconfWire.Proofs.Reassembly
import NetconfWire.Proofs.Silence
import NetconfWire.Proofs.Unwritable
