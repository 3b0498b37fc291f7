import JobChart.Chart.Ident

/-!
# Ids of a diagram

How the boxes, steps and badges of a workflow are called. The id of a job's
name stands in all of them.
-/

namespace JobChart.Diagram

open Chart

def triggersId : String := "triggers"

def triggerId (name : String) : String := "trigger_" ++ idOf name

def jobId (job : String) : String := "job_" ++ idOf job

/-- The base of the badges in front of a job. -/
def jobGuardId (job : String) : String := "cond_job_" ++ idOf job

def stepId (job : String) (index : Nat) : String := idOf job ++ "_s" ++ toString index

/-- The base of the badges in front of a step. -/
def stepGuardId (job : String) (index : Nat) : String := "cond_" ++ stepId job index

end JobChart.Diagram
