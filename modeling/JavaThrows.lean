import JavaThrows.Main
import JavaThrows.Proofs.Cst.Ends
import JavaThrows.Proofs.Cst.Fields
import JavaThrows.Proofs.Pattern.MethodPattern
import JavaThrows.Proofs.Pattern.Supertypes
import JavaThrows.Proofs.Removal.Failure
import JavaThrows.Proofs.Removal.FileOrder
import JavaThrows.Proofs.Removal.Gate
import JavaThrows.Proofs.Removal.ImportLines
import JavaThrows.Proofs.Removal.ImportSafety
import JavaThrows.Proofs.Removal.Overrides
import JavaThrows.Proofs.Removal.ReadBack
import JavaThrows.Proofs.Removal.Schedule
import JavaThrows.Proofs.TypeIndex
import JavaThrows.Proofs.Cst.Everywhere
import JavaThrows.Proofs.Cst.Nesting
import JavaThrows.Proofs.Removal.HiddenMethods
import JavaThrows.Proofs.Cst.Spelling
import JavaThrows.Proofs.Decl.FullNames
import JavaThrows.Proofs.Cst.Relaid
import JavaThrows.Proofs.Cst.Reread
import JavaThrows.Proofs.Decl.Relowered
import JavaThrows.Proofs.Removal.LayoutFree
import JavaThrows.Proofs.Pattern.Grammar
import JavaThrows.Proofs.Pattern.Literal
import JavaThrows.Proofs.Decl.Copies
import JavaThrows.Proofs.Decl.Tables
import JavaThrows.Proofs.Decl.Apart
import JavaThrows.Proofs.Decl.TopLevel
import JavaThrows.Proofs.Decl.Distributed
import JavaThrows.Proofs.Removal.AcrossFiles
import JavaThrows.Proofs.Batch.Containment
import JavaThrows.Proofs.Batch.DryRun
import JavaThrows.Proofs.Batch.Isolation
import JavaThrows.Proofs.Decl.Members
import JavaThrows.Proofs.Decl.Rearranged
import JavaThrows.Proofs.Decl.SamePlace
import JavaThrows.Proofs.Decl.Siblings
import JavaThrows.Proofs.Edit.SharedStart
import JavaThrows.Proofs.Pattern.Alignment
import JavaThrows.Proofs.Decl.TypeVariables
import JavaThrows.Proofs.Files.CommonRoot
import JavaThrows.Proofs.Removal.UnusedImports
import JavaThrows.Proofs.Decl.Constructors
import JavaThrows.Proofs.Pattern.Constructors
import JavaThrows.Proofs.Removal.KeptEntries
import JavaThrows.Proofs.Files.Entered
import JavaThrows.Proofs.Config.Nearest
import JavaThrows.Proofs.Batch.Output
import JavaThrows.Proofs.Text.DeletedLines
import JavaThrows.Proofs.Text.LineNumbers
import JavaThrows.Proofs.Cst.Keywords
import JavaThrows.Proofs.Batch.ReportedLines
import JavaThrows.Proofs.Decl.Erasure
import JavaThrows.Proofs.Decl.TypeSyntax
import JavaThrows.Proofs.Decl.ArraySpellings
