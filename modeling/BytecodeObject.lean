import BytecodeObject.Stream.Dump
import BytecodeObject.Proofs.Decoding
import BytecodeObject.Proofs.Writable
import BytecodeObject.Proofs.LargeTables
import BytecodeObject.Proofs.Limits
import BytecodeObject.Proofs.TagPlaces
import BytecodeObject.Proofs.Diagnostics
import BytecodeObject.Proofs.Footprint
import BytecodeObject.Proofs.DeclaredLengths
import BytecodeObject.Proofs.FixedFields
import BytecodeObject.Proofs.Lookup
import BytecodeObject.Proofs.TableIndependence
import BytecodeObject.Proofs.StatefulReader
import BytecodeObject.Proofs.Function.Callbacks
import BytecodeObject.Proofs.Progress
import BytecodeObject.Proofs.Sessions
import BytecodeObject.Proofs.Dump
import BytecodeObject.Proofs.IntegerForms
