import UnrealDecl.File.Workspace
import UnrealDecl.Main
import UnrealDecl.Proofs.Conversion.Atomicity
import UnrealDecl.Proofs.Conversion.Confinement
import UnrealDecl.Proofs.Conversion.InputOrder
import UnrealDecl.Proofs.Conversion.Interruption
import UnrealDecl.Proofs.Conversion.Legibility
import UnrealDecl.Proofs.Conversion.Ownership
import UnrealDecl.Proofs.Conversion.Repetition
import UnrealDecl.Proofs.Conversion.Skipping
import UnrealDecl.Proofs.Conversion.Writing
import UnrealDecl.Proofs.Declaration.Block
import UnrealDecl.Proofs.Declaration.Identity
import UnrealDecl.Proofs.Declaration.Routes
import UnrealDecl.Proofs.Declaration.Structured
import UnrealDecl.Proofs.Declaration.Unambiguous
import UnrealDecl.Proofs.File.Lawful
import UnrealDecl.Proofs.Flag.Decoding
import UnrealDecl.Proofs.Header.Append
import UnrealDecl.Proofs.Header.Blocks
import UnrealDecl.Proofs.Header.Identity
import UnrealDecl.Proofs.Header.Provenance
import UnrealDecl.Proofs.Header.RoundTrip
import UnrealDecl.Proofs.Member.Acceptance
import UnrealDecl.Proofs.Member.Division
import UnrealDecl.Proofs.Conversion.Log
import UnrealDecl.Proofs.Conversion.SkipOrder
import UnrealDecl.Proofs.Member.Residue
import UnrealDecl.Proofs.Member.Separation
import UnrealDecl.Proofs.Member.Span
import UnrealDecl.Proofs.Header.LineEnds
