import DarwinScope.Codesign.Vectors
import DarwinScope.Codesign.Elision
import DarwinScope.Codesign.Syntax
import DarwinScope.Codesign.Forgery
import DarwinScope.Codesign.SuperBlob
import DarwinScope.Codesign.DerIntegers
import DarwinScope.Codesign.DerBounds
import DarwinScope.Codesign.DerWrapper
import DarwinScope.Codesign.HashSlots
import DarwinScope.Codesign.Oid
import DarwinScope.Fixup.RoundTrip
import DarwinScope.Fixup.Sites
import DarwinScope.Fixup.DylibOrdinals
import DarwinScope.Fixup.Containment
import DarwinScope.Fixup.SharedCache
import DarwinScope.Fixup.StartsTable
import DarwinScope.Fixup.SegmentBounds
import DarwinScope.FixupMaps
import DarwinScope.FunctionStarts
import DarwinScope.Sleb128
import DarwinScope.Swift.Parent
import DarwinScope.Swift.TrailerLayout
import DarwinScope.Swift.ValueTrailers
import DarwinScope.Swift.FieldLayout
import DarwinScope.Swift.FieldBounds
import DarwinScope.Swift.Captures
import DarwinScope.BindIndex
import DarwinScope.LoadCommands
import DarwinScope.Block.LiteralLayout
import DarwinScope.Objc.AdoptedProtocols
import DarwinScope.Objc.MethodLists
import DarwinScope.Objc.ClassNames
import DarwinScope.Objc.BindSlots
import DarwinScope.Objc.Enumeration
import DarwinScope.Objc.Attributes
import DarwinScope.Objc.Encodings
import DarwinScope.CFStringTable
import DarwinScope.Coherence
import DarwinScope.Swift.ParentLayout
import DarwinScope.Swift.Replacements
import DarwinScope.Objc.CategoryTable
import DarwinScope.Codesign.SignedContents
import DarwinScope.Fixup.LinkedMaps
import DarwinScope.ListBounds
import DarwinScope.HeaderLayout
import DarwinScope.Architectures
import DarwinScope.SectionWalk
